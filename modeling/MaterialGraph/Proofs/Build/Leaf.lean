import MaterialGraph.Build.Binding
import MaterialGraph.Proofs.Build.After

/-!
# What happens to a leaf

* `Acts r P c c'` : from `c` to `c'` nothing happens but actions that satisfy `P`.
* `CreatesLeaf` : all ways in which the creation of a leaf can end (`after_createLeaf`).
* `BindsLeaf` : all ways in which a binding of a leaf can end (`after_bindLeaf`).

Whatever is said of leaves later is said of these ways, and not of the functions.
-/

namespace MaterialGraph.Build

set_option autoImplicit false

variable {σ : Type} {E : Env σ} {c : Context σ}

/-! ## Creation -/

/-- Nothing happens but actions of some sort. -/
inductive Acts (r : Renderer σ) (P : Action → Prop) : Context σ → Context σ → Prop
  | refl (c : Context σ) : Acts r P c c
  | act {c c' : Context σ} {a : Action} (before : Acts r P c c') (ha : P a) : Acts r P c (c'.acted r a)

theorem Acts.trans {r : Renderer σ} {P : Action → Prop} {c c₁ c₂ : Context σ} (h₁ : Acts r P c c₁)
    (h₂ : Acts r P c₁ c₂) : Acts r P c c₂ := by
  induction h₂ with
  | refl => exact h₁
  | act _ ha ih => exact ih.act ha

/-- The actions that set up a new node. -/
inductive IsSetting (h : Handle) (settings : List (InputKey × Bound)) : Action → Prop
  | bind {key : InputKey} {value : Bound} (mem : (key, value) ∈ settings) : IsSetting h settings (.bind h key value)
  | rename (name : String) : IsSetting h settings (.rename h name)

/-- The actions that set up a new node, in their order. -/
def settingUp (r : Renderer σ) (h : Handle) (settings : List (InputKey × Bound)) (name : Option String) :
    List Action :=
  settings.map (fun entry => .bind h entry.1 entry.2) ++ if r.hasNames then name.toList.map (.rename h) else []

theorem isSetting_of_mem {r : Renderer σ} {h : Handle} {settings : List (InputKey × Bound)} {name : Option String}
    {a : Action} (ha : a ∈ settingUp r h settings name) : IsSetting h settings a := by
  rcases List.mem_append.1 ha with ha | ha
  · obtain ⟨⟨key, value⟩, mem, rfl⟩ := List.mem_map.1 ha
    exact .bind mem
  · split at ha
    · obtain ⟨n, -, rfl⟩ := List.mem_map.1 ha
      exact .rename n
    · simp at ha

/-- How a list of actions is performed: all of them, or those up to one that fails. -/
inductive Performs (r : Renderer σ) : List Action → Context σ → Except CallError Unit → Context σ → Prop
  | nil (c : Context σ) : Performs r [] c (.ok ()) c
  | done {a : Action} {as : List Action} {c c' : Context σ} {res : Except CallError Unit}
      (reply : (r.act a c.system).1 = .ok ()) (rest : Performs r as (c.acted r a) res c') : Performs r (a :: as) c res c'
  | failed {a : Action} {as : List Action} {c : Context σ} {e : CallError} (reply : (r.act a c.system).1 = .error e) :
      Performs r (a :: as) c (.error e) (c.acted r a)

theorem Performs.acts {r : Renderer σ} {P : Action → Prop} {as : List Action} {c c' : Context σ}
    {res : Except CallError Unit} (h : Performs r as c res c') (hP : ∀ a ∈ as, P a) : Acts r P c c' := by
  induction h with
  | nil => exact .refl _
  | done _ _ ih =>
      rw [List.forall_mem_cons] at hP
      exact ((Acts.refl _).act hP.1).trans (ih hP.2)
  | failed => exact (Acts.refl _).act (hP _ List.mem_cons_self)

theorem Performs.settings {r : Renderer σ} {h : Handle} {settings : List (InputKey × Bound)} {name : Option String}
    {c c' : Context σ} {res : Except CallError Unit} (setup : Performs r (settingUp r h settings name) c res c') :
    Acts r (IsSetting h settings) c c' :=
  setup.acts fun _ => isSetting_of_mem

/-- How the creation of a leaf can end: the node is refused, it is there, or it cannot be set up and is deleted. -/
inductive CreatesLeaf (r : Renderer σ) (type : NodeType) (role : Role) (settings : List (InputKey × Bound))
    (name : Option String) (c : Context σ) : Result Leaf → Context σ → Prop
  | refused {e : CallError} (reply : (r.create type c.system).1 = .error e) :
      CreatesLeaf r type role settings name c (.error (.native e)) (c.created r type)
  | done {h : Handle} {c₁ : Context σ} (reply : (r.create type c.system).1 = .ok h)
      (setup : Performs r (settingUp r h settings name) (c.created r type) (.ok ()) c₁) :
      CreatesLeaf r type role settings name c (.ok ⟨.owned h, role⟩) c₁
  | undone {h : Handle} {c₁ : Context σ} {e : CallError} (reply : (r.create type c.system).1 = .ok h)
      (setup : Performs r (settingUp r h settings name) (c.created r type) (.error e) c₁) :
      CreatesLeaf r type role settings name c (.error (.native e)) (c₁.acted r (.delete h))

theorem after_perform {l : List Action} : After (perform l) E c (Performs E.renderer l c) := by
  induction l generalizing c with
  | nil =>
      rw [perform, after_pure]
      exact .nil c
  | cons a l ih =>
      rw [perform, after_bind, after_act]
      split
      · next reply => exact ih.mono fun _ _ h => .done reply h
      · next reply => exact after_pure.2 (.failed reply)

theorem after_createLeaf {type : NodeType} {role : Role} {settings : List (InputKey × Bound)}
    {name : Option String} :
    After (createLeaf type role settings name) E c (CreatesLeaf E.renderer type role settings name c) := by
  rw [createLeaf, after_bind, after_create]
  cases reply : (E.renderer.create type c.system).1 with
  | error e => exact after_pure.2 (.refused reply)
  | ok h =>
      rw [after_bind, after_read, after_bind]
      change After (perform (settingUp E.renderer h settings name)) _ _ _
      refine after_perform.mono ?_
      intro outcome c₁ setup
      cases outcome with
      | ok => exact after_pure.2 (.done reply setup)
      | error e =>
          rw [after_bind, after_act, after_pure]
          exact .undone reply setup

/-! ## Binding -/

/-- The context after a leaf has given up what it holds; what it owns is deleted. -/
def released (r : Renderer σ) (x : PartId) (l : Leaf) (c : Context σ) : Context σ :=
  match l.hold.owned? with
  | some h => (c.edit (.leaf x { l with hold := .nothing })).acted r (.delete h)
  | none => c.edit (.leaf x { l with hold := .nothing })

theorem after_release {x : PartId} {l : Leaf} {Q : Unit → Context σ → Prop} :
    After (release x l) E c Q ↔ Q () (released E.renderer x l c) := by
  rw [release, after_bind, after_edit, released]
  cases l.hold.owned? with
  | none => exact after_pure
  | some h =>
      change After (act (.delete h) >>= fun _ => pure ()) E _ Q ↔ _
      rw [after_bind, after_act, after_pure]

/-- Whether a leaf stands for the node of something else, or for a constant. -/
def Forwards : Role → Bool
  | .surface | .displacement _ => true
  | _ => false

def inputKeys : Role → List InputKey
  | .mapped m => m.inputs.map Prod.snd
  | .image _ => Mapping.image.inputs.map Prod.snd
  | _ => []

theorem native_of_mem_inputKeys {role : Role} {key : InputKey} (mem : key ∈ inputKeys role) :
    Forwards role = false := by
  cases role with
  | surface | displacement => cases mem
  | _ => rfl

theorem mem_inputKeys {m : Mapping} {name : String} {key : InputKey} (h : m.key? name = some key) :
    key ∈ m.inputs.map Prod.snd := by
  obtain ⟨before, after, inputs, -⟩ := List.lookup_eq_some_iff.1 h
  rw [inputs]
  simp

/-- What a binding asks of the renderer. -/
inductive Asks : Binding → Bound → Prop
  | node (h : Handle) : Asks (.node h) (.node h)
  | literal (value type : String) (x : Number.Float4) : Asks (.literal value type) (.floats x)

/-- How the binding of a leaf can end. -/
inductive BindsLeaf (r : Renderer σ) (x : PartId) (l : Leaf) (b : Binding) (c : Context σ) :
    Result Unit → Context σ → Prop
  | unchanged (res : Result Unit) : BindsLeaf r x l b c res c
  | called {h : Handle} {value : Bound} (key : InputKey) (res : Result Unit) (mem : key ∈ inputKeys l.role)
      (held : l.hold.handle? = some h) (asked : Asks b value) : BindsLeaf r x l b c res (c.acted r (.bind h key value))
  | params {p : ImageParams} (p' : ImageParams) (role : l.role = .image p) :
      BindsLeaf r x l b c (.ok ()) (c.edit (.leaf x { l with role := .image p' }))
  | forwarded {h : Handle} (role : l.role = .surface) (node : b = .node h) :
      BindsLeaf r x l b c (.ok ()) (c.edit (.leaf x { l with hold := .borrowed h }))
  | redirected {h : Handle} {name : String} (role : l.role = .displacement name) (node : b = .node h) :
      BindsLeaf r x l b c (.ok ()) ((released r x l c).edit (.leaf x { l with hold := .borrowed h }))
  | emptied {e : LoadError} {name value type : String} (role : l.role = .displacement name)
      (literal : b = .literal value type) : BindsLeaf r x l b c (.error e) (released r x l c)
  | lost {e : LoadError} {name value type : String} {v : Number.Float4} {c₁ : Context σ}
      (role : l.role = .displacement name) (literal : b = .literal value type)
      (creation : CreatesLeaf r .constantTexture .plain [(.value, .floats v)] (some name) (released r x l c) (.error e)
        c₁) :
      BindsLeaf r x l b c (.error e) c₁
  | replaced {constant : Leaf} {name value type : String} {v : Number.Float4} {c₁ : Context σ}
      (role : l.role = .displacement name) (literal : b = .literal value type)
      (creation : CreatesLeaf r .constantTexture .plain [(.value, .floats v)] (some name) (released r x l c)
        (.ok constant) c₁) :
      BindsLeaf r x l b c (.ok ()) (c₁.edit (.leaf x { l with hold := constant.hold }))

theorem after_bindNative {x : PartId} {l : Leaf} {b : Binding} {h : Handle} {key : InputKey} {value : Bound}
    (mem : key ∈ inputKeys l.role) (held : l.hold.handle? = some h) (asked : Asks b value) :
    After (bindNative h key value) E c (BindsLeaf E.renderer x l b c) := by
  rw [bindNative, after_bind, after_act]
  split
  · exact after_pure.2 (.called key _ mem held asked)
  · exact after_pure.2 (.called key _ mem held asked)

theorem after_bindMapped {x : PartId} {l : Leaf} {m : Mapping} {i : Input} {b : Binding}
    (keys : inputKeys l.role = m.inputs.map Prod.snd) :
    After (bindMapped l m i b) E c (BindsLeaf E.renderer x l b c) := by
  unfold bindMapped
  split
  · exact after_pure.2 (.unchanged _)
  next key known =>
  have mem : key ∈ inputKeys l.role := by
    rw [keys]
    exact mem_inputKeys known
  unfold Assembly.leafHandle
  cases held : l.hold.handle? with
  | none => exact after_pure.2 (.unchanged _)
  | some h =>
      cases b with
      | node producer => exact after_bindNative mem held (.node producer)
      | literal value type =>
          dsimp only
          split
          · exact after_pure.2 (.unchanged _)
          · exact after_bindNative mem held (.literal value type _)

theorem after_setImage {x : PartId} {l : Leaf} {p p' : ImageParams} {b : Binding} (role : l.role = .image p) :
    After (setImage x l p') E c (BindsLeaf E.renderer x l b c) := by
  rw [setImage, after_bind, after_edit, after_pure]
  exact .params p' role

theorem after_setImageLiteral {x : PartId} {l : Leaf} {p : ImageParams} {i : Input} {value type : String}
    (role : l.role = .image p) :
    After (setImageLiteral x l p i value type) E c (BindsLeaf E.renderer x l (.literal value type) c) := by
  unfold setImageLiteral
  split
  case h_7 =>
    rw [after_bind]
    exact fun file c₁ hf => by
      cases hf
      exact after_setImage role
  case h_11 =>
    split
    · exact after_pure.2 (.unchanged _)
    · exact after_setImage role
  case h_12 => exact after_bindMapped (by rw [role]; rfl)
  all_goals first
    | exact after_setImage role
    | exact after_pure.2 (.unchanged _)

theorem after_setDisplacement {x : PartId} {l : Leaf} {name value type : String}
    (role : l.role = .displacement name) :
    After (setDisplacement x l name value type) E c (BindsLeaf E.renderer x l (.literal value type) c) := by
  rw [setDisplacement, after_bind, after_release]
  split
  · exact after_pure.2 (.emptied role rfl)
  rw [after_bind]
  refine after_createLeaf.mono ?_
  intro res c₁ creation
  cases res with
  | error e => exact after_pure.2 (.lost role rfl creation)
  | ok constant =>
      dsimp only
      rw [after_bind, after_edit, after_pure]
      exact .replaced role rfl creation

/-- The ways in which a binding of a leaf ends. -/
theorem after_bindLeaf {x : PartId} {l : Leaf} {i : Input} {b : Binding} :
    After (bindLeaf x l i b) E c (BindsLeaf E.renderer x l b c) := by
  unfold bindLeaf
  split
  case h_1 role => exact after_bindMapped (by rw [role]; rfl)
  case h_2 role => exact after_bindMapped (by rw [role]; rfl)
  case h_3 role => exact after_setImageLiteral role
  case h_4 producer role =>
    split
    · rw [after_bind, after_edit, after_pure]
      exact .forwarded role rfl
    · exact after_pure.2 (.unchanged _)
  case h_5 => exact after_pure.2 (.unchanged _)
  case h_6 name role =>
    split
    · split
      · rw [after_bind, after_release, after_bind, after_edit, after_pure]
        exact .redirected role rfl
      · exact after_setDisplacement role
    · exact after_pure.2 (.unchanged _)
  all_goals exact after_pure.2 (.unchanged _)

end MaterialGraph.Build
