import MaterialGraph.Proofs.Build.Binding
import MaterialGraph.Proofs.Recorder

/-!
# What a failed binding leaves

A recorder does nothing that it refuses to do. So a binding that fails changes nothing if all that can be wrong with it
is found out before the leaf is changed. That is so but for one kind of binding: a displacement gives up what it stands
for before the literal that is to take its place has been read.

* `Unmoved` : nothing happens but calls that are refused.
* `SparesOnFailure` : a failure leaves everything as it was, one lemma for each way to bind.
* `failed_binding_spares` : what a failed binding leaves.
* `unreadable_literal_takes_constant` : how a displacement loses its constant.
-/

namespace MaterialGraph.Build

set_option autoImplicit false

open Assembly

variable {E : Env Recorder} {c c' : Context Recorder} {x : PartId} {l : Leaf}

/-- From one context to another no part changes, nothing happens to any node, and no deletion is asked for. -/
structure Unmoved (c c' : Context Recorder) : Prop where
  assembly : c'.assembly = c.assembly
  system : c'.system = c.system
  deleted : deleted c'.journal = deleted c.journal

theorem Unmoved.refl (c : Context Recorder) : Unmoved c c := ⟨rfl, rfl, rfl⟩

def SparesOnFailure {α : Type} (c : Context Recorder) (res : Result α) (c' : Context Recorder) : Prop :=
  ∀ e, res = .error e → Unmoved c c'

theorem SparesOnFailure.here {α : Type} (res : Result α) (c : Context Recorder) : SparesOnFailure c res c :=
  fun _ _ => .refl c

theorem SparesOnFailure.done {α : Type} (a : α) (c c' : Context Recorder) : SparesOnFailure c (.ok a) c' := nofun

/-! ## One way to bind after the other -/

/-- A recorder that refuses to bind something stays as it is. -/
theorem act_bind_error {s : Recorder} {h : Handle} {key : InputKey} {value : Bound} {e : CallError}
    (refused : (Recorder.act (.bind h key value) s).1 = .error e) : (Recorder.act (.bind h key value) s).2 = s := by
  rw [Recorder.act_bind] at refused ⊢
  split at refused
  · next fits =>
    rw [if_pos fits]
    unfold Recorder.modify at refused ⊢
    split at refused
    · cases refused
    · rfl
  · next unfit => rw [if_neg unfit]

section Recording

variable (recording : E.renderer = Recorder.renderer)

include recording

theorem after_bindNative_spares {h : Handle} {key : InputKey} {value : Bound} :
    After (bindNative h key value) E c (SparesOnFailure c) := by
  rw [bindNative, after_bind, after_act, recording]
  split
  · exact after_pure.2 (.done _ _ _)
  · next refused => exact after_pure.2 fun _ _ => ⟨rfl, act_bind_error refused, rfl⟩

theorem after_bindMapped_spares {m : Mapping} {i : Input} {b : Binding} :
    After (bindMapped l m i b) E c (SparesOnFailure c) := by
  unfold bindMapped
  split
  · exact after_pure.2 (.here _ c)
  split
  · exact after_pure.2 (.here _ c)
  split
  · exact after_bindNative_spares recording
  · split
    · exact after_pure.2 (.here _ c)
    · exact after_bindNative_spares recording

omit recording in
theorem after_setImage_spares {p : ImageParams} : After (setImage x l p) E c (SparesOnFailure c) := by
  rw [setImage, after_bind, after_edit, after_pure]
  exact .done _ _ _

theorem after_setImageLiteral_spares {p : ImageParams} {i : Input} {value type : String} :
    After (setImageLiteral x l p i value type) E c (SparesOnFailure c) := by
  unfold setImageLiteral
  split
  case h_7 =>
    rw [after_bind]
    intro file c₁ resolved
    cases resolved
    exact after_setImage_spares
  case h_11 =>
    split
    · exact after_pure.2 (.here _ c)
    · exact after_setImage_spares
  case h_12 => exact after_bindMapped_spares recording
  all_goals first
    | exact after_setImage_spares
    | exact after_pure.2 (.here _ c)

/-- A binding that puts a constant in the place of what a displacement stands for. -/
def Replaces (l : Leaf) (i : Input) (b : Binding) : Prop :=
  ∃ name value type, l.role = .displacement name ∧ i.name = "displacement" ∧ b = .literal value type

omit recording in
theorem bindLeaf_replacing {i : Input} {name value type : String} (role : l.role = .displacement name)
    (named : i.name = "displacement") :
    (bindLeaf x l i (.literal value type) : Build Recorder _) = setDisplacement x l name value type := by
  obtain ⟨hold, _⟩ := l
  cases role
  exact if_pos named

/-- Where no constant is to be replaced, a failed binding leaves everything as it was. -/
theorem after_bindLeaf_spares {i : Input} {b : Binding} (other : ¬ Replaces l i b) :
    After (bindLeaf x l i b) E c (SparesOnFailure c) := by
  unfold bindLeaf
  split
  case h_1 => exact after_bindMapped_spares recording
  case h_2 => exact after_bindMapped_spares recording
  case h_3 => exact after_setImageLiteral_spares recording
  case h_4 =>
    split
    · rw [after_bind, after_edit, after_pure]
      exact .done _ _ _
    · exact after_pure.2 (.here _ c)
  case h_6 name role =>
    split
    · next named =>
      split
      · rw [after_bind, after_release, after_bind, after_edit, after_pure]
        exact .done _ _ _
      · exact absurd ⟨name, _, _, role, named, rfl⟩ other
    · exact after_pure.2 (.here _ c)
  all_goals exact after_pure.2 (.here _ c)

/-! ## Constants -/

omit recording in
/-- A recorder does whatever sets up a live node with floats and a name. -/
theorem Performs.obeyed {h : Handle} {key : InputKey} {v : Number.Float4} {as : List Action}
    {res : Except CallError Unit} (performs : Performs Recorder.renderer as c res c')
    (settings : ∀ a ∈ as, IsSetting h [(key, .floats v)] a) (live : (c.system.node? h).isSome) : res = .ok () := by
  have obeys {a : Action} (setting : IsSetting h [(key, .floats v)] a) {s : Recorder} (live : (s.node? h).isSome) :
      (Recorder.act a s).1 = .ok () := by
    obtain ⟨n, there⟩ := Option.isSome_iff_exists.1 live
    cases setting with
    | bind mem =>
        cases List.mem_singleton.1 mem
        rw [Recorder.act_bind, Recorder.modify, there]
        rfl
    | rename name => rw [Recorder.act_rename, Recorder.modify, there]
  induction performs with
  | nil => rfl
  | done _ _ ih =>
      rw [List.forall_mem_cons] at settings
      refine ih settings.2 ((Recorder.isSome_node?_act ?_).trans live)
      cases settings.1 <;> exact nofun
  | failed reply =>
      have done := obeys (settings _ List.mem_cons_self) live
      cases reply.symm.trans done

omit recording in
/-- A recorder can only refuse to create a constant, and it then stays as it is. -/
theorem CreatesLeaf.unmoved {type : NodeType} {role : Role} {key : InputKey} {v : Number.Float4}
    {name : Option String} {e : LoadError}
    (creation : CreatesLeaf Recorder.renderer type role [(key, .floats v)] name c (.error e) c') : Unmoved c c' := by
  cases creation with
  | refused reply => exact ⟨rfl, Recorder.create_error reply, rfl⟩
  | @undone h c₁ e reply setup =>
      have live : ((c.created Recorder.renderer type).system.node? h).isSome := by
        change ((Recorder.create type c.system).2.node? h).isSome
        rw [Recorder.node?_create reply, if_pos rfl]
        rfl
      cases setup.obeyed (fun _ => isSetting_of_mem) live

/-- The context in which the leaf has given up what it stood for is what a failed replacement leaves. -/
theorem after_setDisplacement_failed {name value type : String} :
    After (setDisplacement x l name value type) E c
      (SparesOnFailure (released Recorder.renderer x l c)) := by
  rw [setDisplacement, after_bind, after_release, recording]
  split
  · exact after_pure.2 (.here _ _)
  rw [after_bind]
  refine after_createLeaf.mono ?_
  rw [recording]
  intro res c₁ creation
  cases res with
  | error e => exact after_pure.2 fun _ _ => creation.unmoved
  | ok constant =>
      dsimp only
      rw [after_bind, after_edit, after_pure]
      exact .done _ _ _

/-! ## Failed bindings -/

omit recording in
/-- When a leaf gives up what it holds, nothing happens to other parts and to other nodes. -/
theorem released_frame (x : PartId) (l : Leaf) (c : Context Recorder) :
    (∀ y, y ≠ x → (released Recorder.renderer x l c).assembly.part? y = c.assembly.part? y) ∧
      ∀ h, l.hold.owned? ≠ some h →
        (released Recorder.renderer x l c).system.node? h = c.system.node? h ∧
          (h ∈ deleted (released Recorder.renderer x l c).journal ↔ h ∈ deleted c.journal) := by
  refine ⟨fun y other => ?_, fun h foreign => ?_⟩
  · rw [released_assembly]
    exact part?_leaf_of_ne _ other
  · rw [released]
    cases own : l.hold.owned? with
    | none => exact ⟨rfl, .rfl⟩
    | some g =>
        have hne : h ≠ g := fun same => foreign (own.trans (congrArg some same.symm))
        refine ⟨(Recorder.node?_delete (h := g)).trans (if_neg hne), ?_⟩
        change h ∈ g :: deleted c.journal ↔ _
        rw [List.mem_cons, or_iff_right hne]

/-- A connection to a leaf that fails leaves parts and nodes as they were. -/
theorem after_connect_spares {y : PartId} {output : Option String} {i : Input} (leaf : c.assembly.leaf? y = some l) :
    After (connect x output y i) E c fun res c' =>
      ∀ e, res = .error e → c'.assembly = c.assembly ∧ c'.system = c.system := by
  rw [connect, after_asTask, after_andThen]
  refine after_outputHandle.mono ?_
  rintro res _ ⟨rfl, -⟩
  refine ⟨fun h _ res' c' call e failed => ?_, fun _ _ _ _ => ⟨rfl, rfl⟩⟩
  rw [bindInput_of_leaf (c := c.edit (.began (.connection x output y i))) leaf] at call
  have literal : ¬ Replaces l i (.node h) := by
    rintro ⟨_, _, _, -, -, ⟨⟩⟩
  have kept := after_bindLeaf_spares recording literal _ _ call e failed
  exact ⟨kept.assembly, kept.system⟩

/-- A binding of a leaf that fails on a recorder leaves everything as it was, the parts, the nodes and the list of
deletions, unless a literal was to take the place of what a displacement stands for. Then, too, the leaf keeps its role,
and nothing happens to other parts and to nodes that it does not own. -/
theorem failed_binding_spares {i : Input} {b : Binding} {e : LoadError} (leaf : c.assembly.leaf? x = some l)
    (failed : bindLeaf x l i b E c = .ok (.error e, c')) :
    (¬ Replaces l i b → Unmoved c c') ∧
      (∃ l', c'.assembly.leaf? x = some l' ∧ l'.role = l.role) ∧
      (∀ y, y ≠ x → c'.assembly.part? y = c.assembly.part? y) ∧
      ∀ h, l.hold.owned? ≠ some h →
        c'.system.node? h = c.system.node? h ∧ (h ∈ deleted c'.journal ↔ h ∈ deleted c.journal) := by
  by_cases replaces : Replaces l i b
  · obtain ⟨name, value, type, role, named, rfl⟩ := replaces
    have kept : Unmoved (released Recorder.renderer x l c) c' := by
      rw [bindLeaf_replacing role named] at failed
      exact after_setDisplacement_failed recording _ _ failed e rfl
    obtain ⟨parts, nodes⟩ := released_frame x l c
    refine ⟨fun other => absurd ⟨name, value, type, role, named, rfl⟩ other, ?_, ?_, ?_⟩
    · rw [kept.assembly]
      exact ⟨_, leaf?_released leaf, rfl⟩
    · rw [kept.assembly]
      exact parts
    · rw [kept.system, kept.deleted]
      exact nodes
  · have kept : Unmoved c c' := after_bindLeaf_spares recording replaces _ _ failed e rfl
    refine ⟨fun _ => kept, ?_, ?_, ?_⟩
    · rw [kept.assembly]
      exact ⟨l, leaf, rfl⟩
    · rw [kept.assembly]
      exact fun _ _ => rfl
    · rw [kept.system, kept.deleted]
      exact fun _ _ => ⟨rfl, .rfl⟩

end Recording

/-- An environment with a recorder and no document in particular. -/
def recorded : Env Recorder := { renderer := Recorder.renderer, catalog := ⟨{}, none⟩ }

/-- A leaf of a role and its node, to which halves are bound. -/
def halved (type : NodeType) (key : InputKey) (role : Role) : Context Recorder where
  system := (Recorder.act (.bind ⟨0⟩ key (.floats ⟨.half, .half, .half, .half⟩)) (Recorder.create type {}).2).2
  assembly := { parts := #[.leaf ⟨.owned ⟨0⟩, role⟩] }

/-- A sum keeps what is bound to its first input when a text that is no number is to take its place. -/
theorem failed_binding_spares_sum :
    let role : Role := .mapped (Mapping.binary .add)
    let c := halved .arithmetic .color0 role
    ∃ c' e, bindLeaf 0 ⟨.owned ⟨0⟩, role⟩ { name := "in1", type := "float" } (.literal "abc" "float") recorded c =
        .ok (.error e, c') ∧ Unmoved c c' ∧
      (c'.system.node? ⟨0⟩).bind (·.bound .color0) = some (.floats ⟨.half, .half, .half, .half⟩) := by
  intro role c
  have evaluated : (bindLeaf 0 ⟨.owned ⟨0⟩, role⟩ { name := "in1", type := "float" } (.literal "abc" "float")
      recorded c).toOption.map (·.1.isOk) = some false := by decide +kernel
  obtain ⟨res, c', bound, refused⟩ := exists_of_toOption evaluated
  cases res with
  | ok => cases refused
  | error e =>
      have other : ¬ Replaces ⟨.owned ⟨0⟩, role⟩ { name := "in1", type := "float" } (.literal "abc" "float") := by
        rintro ⟨name, value, type, displaces, -⟩
        cases displaces
      have kept := (failed_binding_spares (c := c) rfl rfl bound).1 other
      exact ⟨c', e, bound, kept, by rw [kept.system]; decide +kernel⟩

/-- A displacement gives up its constant, which is deleted, for a text that is no number. -/
theorem unreadable_literal_takes_constant :
    let role : Role := .displacement "d"
    let c := halved .constantTexture .value role
    ∃ c' e, bindLeaf 0 ⟨.owned ⟨0⟩, role⟩ { name := "displacement", type := "float" } (.literal "abc" "float") recorded
        c = .ok (.error e, c') ∧
      c.assembly.leaf? 0 = some ⟨.owned ⟨0⟩, role⟩ ∧ c'.assembly.leaf? 0 = some ⟨.nothing, role⟩ ∧
      deleted c'.journal = [⟨0⟩] ∧ (c.system.node? ⟨0⟩).isSome ∧ c'.system.node? ⟨0⟩ = none := by
  intro role c
  have evaluated : (bindLeaf 0 ⟨.owned ⟨0⟩, role⟩ { name := "displacement", type := "float" } (.literal "abc" "float")
      recorded c).toOption.map (fun bound =>
        (bound.1.isOk, bound.2.assembly.leaf? 0, deleted bound.2.journal, (bound.2.system.node? ⟨0⟩).isNone)) =
      some (false, some ⟨.nothing, role⟩, [⟨0⟩], true) := by decide +kernel
  obtain ⟨res, c', bound, same⟩ := exists_of_toOption evaluated
  obtain ⟨refused, same⟩ := Prod.mk.inj same
  obtain ⟨leaf, same⟩ := Prod.mk.inj same
  obtain ⟨gone, absent⟩ := Prod.mk.inj same
  cases res with
  | ok => cases refused
  | error e => exact ⟨c', e, bound, rfl, leaf, gone, by decide +kernel, Option.isNone_iff_eq_none.1 absent⟩

end MaterialGraph.Build
