import MaterialGraph.Build.Binding
import MaterialGraph.Proofs.Mirror.States

/-!
# Builds that mirror each other

* `Mirror` : how one renderer is seen in another, which gives the same nodes other handles, and whether remarks are
  wanted on both sides.
* `Mirrors M R m m'` : from states that `M` relates, both builds return nothing, or both return something related by
  `R` and leave related states.
* `mirrors_*` : how this goes through the ways builds are put together, one lemma for each way.
* `mirrors_createLeaf`, `mirrors_bindPart`, `mirrors_connect` : binding mirrors itself.
-/

namespace MaterialGraph

set_option autoImplicit false

open List (Forall₂)

variable {σ σ' : Type}

/-- How a renderer is seen in another one: under which handles, and in which states. A deaf side wants no remarks, whatever
the other wants. -/
structure Mirror (r : Renderer σ) (r' : Renderer σ') where
  label : Handle → Handle
  injective : Function.Injective label
  Sees : σ → σ' → Prop
  hasNames : r'.hasNames = r.hasNames
  create : ∀ {s s'}, Sees s s' → ∀ type,
    (r'.create type s').1 = (r.create type s).1.map label ∧ Sees (r.create type s).2 (r'.create type s').2
  act : ∀ {s s'}, Sees s s' → ∀ a,
    (r'.act (a.relabel label) s').1 = (r.act a s).1 ∧ Sees (r.act a s).2 (r'.act (a.relabel label) s').2
  deaf : Bool := false

variable {r : Renderer σ} {r' : Renderer σ'}

/-- Whether the other side shows an event that this one shows. -/
def Mirror.hears (M : Mirror r r') (e : Event) : Bool := !(M.deaf && e.isRemark)

/-- Two environments are the same but for the renderer, the order of nodes, and whether remarks are wanted. -/
structure Env.Twin (M : Mirror r r') (E : Env σ) (E' : Env σ') : Prop where
  renderer : E.renderer = r
  renderer' : E'.renderer = r'
  catalog : E.catalog.Alike E'.catalog
  searchPath : E'.searchPath = E.searchPath
  fileExists : E'.fileExists = E.fileExists
  logging : E'.logging = (E.logging && !M.deaf)
  place : E'.place = E.place

/-- The events that are shown, the latest first. -/
def Context.visible (c : Context σ) : List Event := c.journal.filter Event.isShown

/-- Two contexts are the same but for handles, the order of nodes, and remarks. -/
structure Context.Twin (M : Mirror r r') (c : Context σ) (c' : Context σ') : Prop where
  system : M.Sees c.system c'.system
  assembly : c.assembly.Twin M.label c'.assembly
  visible : c'.visible = (c.visible.filter M.hears).map (Event.relabel M.label)

namespace Build

variable {α α' β β' : Type} {M : Mirror r r'} {R : α → α' → Prop} {S : β → β' → Prop}

/-- From related states both builds return nothing, or both return something related and leave related states. -/
def Mirrors (M : Mirror r r') (R : α → α' → Prop) (m : Build σ α) (m' : Build σ' α') : Prop :=
  ∀ E E' c c', Env.Twin M E E' → Context.Twin M c c' →
    Option.Rel (fun x x' => R x.1 x'.1 ∧ x.2.Twin M x'.2) (m E c).toOption
      (m' E' c').toOption

/-- Results are the same, but for handles in their values. -/
abbrev Relabels (f : α → α') (res : Result α) (res' : Result α') : Prop := res' = res.map f

/-! ## Ways to put builds together -/

theorem mirrors_pure {a : α} {a' : α'} (h : R a a') : Mirrors M R (pure a) (pure a') :=
  fun _ _ _ _ _ hc => .some ⟨h, hc⟩

theorem toOption_bind {m : Build σ α} {f : α → Build σ β} {E : Env σ} {c : Context σ} :
    ((m >>= f) E c).toOption = (m E c).toOption.bind fun x => (f x.1 E x.2).toOption := by
  change (Except.bind (m E c) _).toOption = _
  cases m E c <;> rfl

theorem Mirrors.bind {m : Build σ α} {m' : Build σ' α'} {f : α → Build σ β} {f' : α' → Build σ' β'}
    (hm : Mirrors M R m m') (hf : ∀ a a', R a a' → Mirrors M S (f a) (f' a')) :
    Mirrors M S (m >>= f) (m' >>= f') := by
  intro E E' c c' hE hc
  rw [toOption_bind, toOption_bind]
  exact rel_bind (hm E E' c c' hE hc) fun _ _ h => hf _ _ h.1 E E' _ _ hE h.2

/-- The first build has the same result on both sides. -/
theorem Mirrors.bind_same {m : Build σ α} {m' : Build σ' α} {f : α → Build σ β} {f' : α → Build σ' β'}
    (hm : Mirrors M Eq m m') (hf : ∀ a, Mirrors M S (f a) (f' a)) : Mirrors M S (m >>= f) (m' >>= f') :=
  hm.bind fun _ _ h => h ▸ hf _

theorem mirrors_outOfFuel : Mirrors M R outOfFuel outOfFuel := fun _ _ _ _ _ _ => .none

theorem mirrors_ofOption {o : Option α} {o' : Option α'} (h : Option.Rel R o o') :
    Mirrors M R (ofOption o) (ofOption o') := by
  cases h with
  | none => exact mirrors_outOfFuel
  | some h => exact mirrors_pure h

theorem mirrors_read : Mirrors M (Env.Twin M) read read := fun _ _ _ _ hE hc => .some ⟨hE, hc⟩

theorem mirrors_assembly : Mirrors M (Assembly.Twin M.label) assembly assembly :=
  fun _ _ _ _ _ hc => .some ⟨hc.assembly, hc⟩

theorem mirrors_catalog : Mirrors M Catalog.Alike catalog catalog := fun _ _ _ _ hE hc => .some ⟨hE.catalog, hc⟩

/-- An event that is shown, and is no remark, is shown on both sides. -/
theorem visible_cons {e : Event} {j j' : List Event} (shown : e.isShown) (heard : e.isRemark = false)
    (before : j'.filter Event.isShown = ((j.filter Event.isShown).filter M.hears).map (Event.relabel M.label)) :
    (e.relabel M.label :: j').filter Event.isShown =
      (((e :: j).filter Event.isShown).filter M.hears).map (Event.relabel M.label) := by
  have hears : M.hears e := by rw [Mirror.hears, heard, Bool.and_false, Bool.not_false]
  rw [List.filter_cons_of_pos (by rwa [Event.isShown_relabel]), List.filter_cons_of_pos shown,
    List.filter_cons_of_pos hears, List.map_cons, before]

theorem mirrors_emit {e : Event} (shown : e.isShown) (heard : e.isRemark = false) :
    Mirrors M Eq (emit e) (emit (e.relabel M.label)) :=
  fun _ _ _ _ _ hc => .some ⟨rfl, hc.system, hc.assembly, visible_cons shown heard hc.visible⟩

/-- A remark is shown on both sides, or it is muted where it is not wanted. -/
theorem mirrors_remark (x : Remark) : Mirrors M Eq (remark x) (remark x) := by
  intro E E' c c' hE hc
  refine .some ⟨rfl, hc.system, hc.assembly, ?_⟩
  have before := hc.visible
  change (Event.remarked E'.margin x :: c'.journal).filter Event.isShown =
    (((Event.remarked E.margin x :: c.journal).filter Event.isShown).filter M.hears).map (Event.relabel M.label)
  cases wanted : E.logging with
  | false =>
      have muted : E.margin = .muted := by rw [Env.margin, wanted]; rfl
      have muted' : E'.margin = .muted := by rw [Env.margin, hE.logging, wanted]; rfl
      rw [muted, muted']
      exact before
  | true =>
      have here : E.margin = .at E.place.column := by rw [Env.margin, wanted]; rfl
      rw [here]
      cases deaf : M.deaf with
      | true =>
          have muted' : E'.margin = .muted := by rw [Env.margin, hE.logging, deaf, Bool.not_true, Bool.and_false]; rfl
          have unheard : ¬ M.hears (.remarked (.at E.place.column) x) := by
            rw [Mirror.hears, deaf]
            exact Bool.false_ne_true
          rw [muted']
          change c'.journal.filter Event.isShown =
            ((Event.remarked (.at E.place.column) x :: c.journal.filter Event.isShown).filter M.hears).map _
          rw [List.filter_cons_of_neg unheard]
          exact before
      | false =>
          have there : E'.margin = .at E.place.column := by rw [Env.margin, hE.logging, wanted, deaf, hE.place]; rfl
          have hears : M.hears (.remarked (.at E.place.column) x) := by rw [Mirror.hears, deaf]; rfl
          rw [there, List.filter_cons_of_pos rfl, List.filter_cons_of_pos rfl, List.filter_cons_of_pos hears, List.map_cons]
          exact congrArg _ before

theorem mirrors_warn (w : Warning) : Mirrors M Eq (warn w) (warn w) := mirrors_emit (e := .warned w) rfl rfl

theorem mirrors_edit {e d : Edit}
    (h : ∀ a a', Assembly.Twin M.label a a' → (a.apply e).Twin M.label (a'.apply d)) :
    Mirrors M Eq (edit e) (edit d) :=
  fun _ _ _ _ _ hc => .some ⟨rfl, hc.system, h _ _ hc.assembly, hc.visible⟩

theorem mirrors_create (type : NodeType) :
    Mirrors M (fun reply reply' => reply' = reply.map M.label) (create type) (create type) := by
  intro E E' c c' hE hc
  obtain ⟨reply, sees⟩ := M.create hc.system type
  unfold create
  rw [hE.renderer, hE.renderer']
  refine .some ⟨reply, sees, hc.assembly, ?_⟩
  rw [reply]
  exact visible_cons (e := .created type _) rfl rfl hc.visible

theorem mirrors_act (a : Action) : Mirrors M Eq (act a) (act (a.relabel M.label)) := by
  intro E E' c c' hE hc
  obtain ⟨reply, sees⟩ := M.act hc.system a
  unfold act
  rw [hE.renderer, hE.renderer']
  refine .some ⟨reply.symm, sees, hc.assembly, ?_⟩
  rw [reply]
  exact visible_cons (e := .acted a _) rfl rfl hc.visible

theorem mirrors_within {level : Level} {filePrefix : Option String} {m : Build σ α} {m' : Build σ' α'}
    (hm : Mirrors M R m m') : Mirrors M R (within level filePrefix m) (within level filePrefix m') :=
  fun _ _ c c' hE hc => hm _ _ c c'
    ⟨hE.renderer, hE.renderer', hE.catalog, hE.searchPath, hE.fileExists, hE.logging, by rw [hE.place]⟩ hc

/-- Goes on with values that are the same but for handles. -/
theorem mirrors_andThen {g : α → α'} {f : α → Build σ (Result β)} {f' : α' → Build σ' (Result β)}
    {m : Build σ (Result α)} {m' : Build σ' (Result α')} (hm : Mirrors M (Relabels g) m m')
    (hf : ∀ a, Mirrors M Eq (f a) (f' (g a))) : Mirrors M Eq (andThen m f) (andThen m' f') := by
  refine hm.bind fun res _ same => ?_
  subst same
  cases res with
  | error e => exact mirrors_pure rfl
  | ok a => exact hf a

/-- Goes on with values that are the same. -/
theorem mirrors_andThen_same {f : α → Build σ (Result β)} {f' : α → Build σ' (Result β)} {m : Build σ (Result α)}
    {m' : Build σ' (Result α)} (hm : Mirrors M Eq m m') (hf : ∀ a, Mirrors M Eq (f a) (f' a)) :
    Mirrors M Eq (andThen m f) (andThen m' f') := by
  refine hm.bind_same fun res => ?_
  cases res with
  | error e => exact mirrors_pure rfl
  | ok a => exact hf a

theorem mirrors_asTask {t : Task} {succeeds : α → Bool} {succeeds' : α' → Bool} {m : Build σ α} {m' : Build σ' α'}
    (hm : Mirrors M R m m') : Mirrors M R (asTask t succeeds m) (asTask t succeeds' m') :=
  (mirrors_edit (e := .began t) (d := .began t) fun _ _ h => h).bind_same fun _ => hm.bind fun a a' h =>
    (mirrors_edit (e := .ended t (succeeds a)) (d := .ended t (succeeds' a')) fun _ _ h => h).bind_same fun _ =>
      mirrors_pure h

theorem mirrors_addPart {q q' : Part} (twin : q.Twin M.label q') : Mirrors M Eq (addPart q) (addPart q') := by
  refine mirrors_assembly.bind fun a a' h => (mirrors_edit fun _ _ h => h.add twin).bind_same fun _ => ?_
  exact mirrors_pure h.size.symm

theorem mirrors_addComposite {g g' : Graph} (alike : g.Alike g') : Mirrors M Eq (addComposite g) (addComposite g') :=
  mirrors_addPart (.composite ⟨alike, rfl⟩)

theorem mirrors_resolveFile (name : String) : Mirrors M Eq (resolveFile name) (resolveFile name) := by
  refine mirrors_read.bind fun E E' h => ?_
  rw [h.searchPath, h.fileExists, h.place]
  exact mirrors_pure rfl

theorem mirrors_mapM {f : α → Build σ β} {f' : α → Build σ' β} (hf : ∀ a, Mirrors M Eq (f a) (f' a)) (l : List α) :
    Mirrors M Eq (l.mapM f) (l.mapM f') := by
  induction l with
  | nil => exact mirrors_pure rfl
  | cons a l ih =>
      rw [List.mapM_cons, List.mapM_cons]
      exact (hf a).bind_same fun _ => ih.bind_same fun _ => mirrors_pure rfl

theorem mirrors_forM {f : α → Build σ Unit} {f' : α → Build σ' Unit} (hf : ∀ a, Mirrors M Eq (f a) (f' a))
    (l : List α) : Mirrors M Eq (l.forM f) (l.forM f') := by
  induction l with
  | nil => exact mirrors_pure rfl
  | cons a l ih => exact (hf a).bind_same fun _ => ih

theorem mirrors_foldlM {f : β → α → Build σ β} {f' : β → α' → Build σ' β}
    (hf : ∀ b a a', R a a' → Mirrors M Eq (f b a) (f' b a')) {l : List α} {l' : List α'} (h : Forall₂ R l l') (b : β) :
    Mirrors M Eq (l.foldlM f b) (l'.foldlM f' b) := by
  induction h generalizing b with
  | nil => exact mirrors_pure rfl
  | cons ha _ ih =>
      rw [List.foldlM_cons, List.foldlM_cons]
      exact (hf b _ _ ha).bind_same ih

/-! ## Leaves -/

theorem mirrors_perform (l : List Action) : Mirrors M Eq (perform l) (perform (l.map (Action.relabel M.label))) := by
  induction l with
  | nil => exact mirrors_pure rfl
  | cons a l ih =>
      refine (mirrors_act a).bind_same fun reply => ?_
      cases reply with
      | ok => exact ih
      | error => exact mirrors_pure rfl

theorem mirrors_createLeaf (type : NodeType) (role : Role) (settings : List (InputKey × Bound))
    (name : Option String) :
    Mirrors M (Relabels (Leaf.relabel M.label)) (createLeaf type role settings name)
      (createLeaf type role (relabelSettings M.label settings) name) := by
  refine (mirrors_create type).bind fun reply _ same => ?_
  subst same
  cases reply with
  | error e => exact mirrors_pure rfl
  | ok h =>
      refine mirrors_read.bind fun E E' twin => ?_
      have actions : ((relabelSettings M.label settings).map fun s => Action.bind (M.label h) s.1 s.2) ++
          (if r.hasNames then name.toList.map (Action.rename (M.label h)) else []) =
          ((settings.map fun s => Action.bind h s.1 s.2) ++
            if r.hasNames then name.toList.map (Action.rename h) else []).map (Action.relabel M.label) := by
        rw [List.map_append, relabelSettings, List.map_map, List.map_map]
        refine congrArg _ ?_
        split
        · rw [List.map_map]
          rfl
        · rfl
      dsimp only [Except.map]
      rw [twin.renderer, twin.renderer', M.hasNames]
      refine Mirrors.bind_same (actions ▸ mirrors_perform _) fun outcome => ?_
      cases outcome with
      | ok => exact mirrors_pure rfl
      | error => exact (mirrors_act (.delete h)).bind_same fun _ => mirrors_pure rfl

theorem mirrors_release (x : PartId) (l : Leaf) : Mirrors M Eq (release x l) (release x (l.relabel M.label)) := by
  refine (mirrors_edit fun _ _ h => h.setLeaf x { l with hold := .nothing }).bind_same fun _ => ?_
  rw [Leaf.hold_relabel, Hold.owned?_relabel]
  cases l.hold.owned? with
  | none => exact mirrors_pure rfl
  | some h => exact (mirrors_act (.delete h)).bind_same fun _ => mirrors_pure rfl

theorem mirrors_bindNative (h : Handle) (key : InputKey) (value : Bound) :
    Mirrors M Eq (bindNative h key value) (bindNative (M.label h) key (value.relabel M.label)) := by
  refine (mirrors_act (.bind h key value)).bind_same fun reply => ?_
  cases reply <;> exact mirrors_pure rfl

theorem mirrors_bindMapped (l : Leaf) (m : Mapping) (i : Input) (b : Binding) :
    Mirrors M Eq (bindMapped l m i b) (bindMapped (l.relabel M.label) m i (b.relabel M.label)) := by
  unfold bindMapped
  rw [leafHandle_relabel]
  split
  · exact mirrors_pure rfl
  · cases Assembly.leafHandle l with
    | error e => exact mirrors_pure rfl
    | ok h =>
        cases b with
        | node producer => exact mirrors_bindNative h _ (.node producer)
        | literal value type =>
            dsimp only [Binding.relabel, Except.map]
            split
            · exact mirrors_pure rfl
            · exact mirrors_bindNative h _ (.floats _)

theorem mirrors_setImage (x : PartId) (l : Leaf) (p : ImageParams) :
    Mirrors M Eq (setImage x l p) (setImage x (l.relabel M.label) p) :=
  (mirrors_edit fun _ _ h => h.setLeaf x { l with role := .image p }).bind_same fun _ => mirrors_pure rfl

theorem mirrors_setImageLiteral (x : PartId) (l : Leaf) (p : ImageParams) (i : Input) (value type : String) :
    Mirrors M Eq (setImageLiteral x l p i value type) (setImageLiteral x (l.relabel M.label) p i value type) := by
  unfold setImageLiteral
  split
  case h_7 => exact (mirrors_resolveFile value).bind_same fun _ => mirrors_setImage x l _
  case h_11 =>
    split
    · exact mirrors_pure rfl
    · exact mirrors_setImage x l _
  case h_12 => exact mirrors_bindMapped l .image i (.literal value _)
  all_goals first
    | exact mirrors_setImage x l _
    | exact mirrors_pure rfl

theorem mirrors_setDisplacement (x : PartId) (l : Leaf) (name value type : String) :
    Mirrors M Eq (setDisplacement x l name value type) (setDisplacement x (l.relabel M.label) name value type) := by
  refine (mirrors_release x l).bind_same fun _ => ?_
  split
  · exact mirrors_pure rfl
  · refine (mirrors_createLeaf _ _ [(.value, .floats _)] _).bind fun res _ same => ?_
    subst same
    cases res with
    | error e => exact mirrors_pure rfl
    | ok constant =>
        refine (mirrors_edit fun _ _ h => ?_).bind_same fun _ => mirrors_pure rfl
        exact h.setLeaf x { l with hold := constant.hold }

theorem mirrors_bindLeaf (x : PartId) (l : Leaf) (i : Input) (b : Binding) :
    Mirrors M Eq (bindLeaf x l i b) (bindLeaf x (l.relabel M.label) i (b.relabel M.label)) := by
  unfold bindLeaf
  rw [Leaf.role_relabel]
  cases hrole : l.role with
  | plain => exact mirrors_pure rfl
  | wrap => exact mirrors_pure rfl
  | mapped m => exact mirrors_bindMapped l m i b
  | image params =>
      cases b with
      | node producer => exact mirrors_bindMapped l .image i (.node producer)
      | literal value type => exact mirrors_setImageLiteral x l params i value type
  | surface =>
      cases b with
      | literal value type => exact mirrors_pure rfl
      | node producer =>
          dsimp only [Binding.relabel]
          split
          · refine (mirrors_edit fun _ _ h => ?_).bind_same fun _ => mirrors_pure rfl
            exact hrole ▸ h.setLeaf x { l with hold := .borrowed producer }
          · exact mirrors_pure rfl
  | displacement name =>
      dsimp only
      split
      · cases b with
        | literal value type => exact mirrors_setDisplacement x l name value type
        | node producer =>
            refine (mirrors_release x l).bind_same fun _ => ?_
            refine (mirrors_edit fun _ _ h => ?_).bind_same fun _ => mirrors_pure rfl
            exact hrole ▸ h.setLeaf x { l with hold := .borrowed producer }
      · exact mirrors_pure rfl

/-! ## Parts -/

theorem mirrors_forAll {f : α → Build σ (Result Unit)} {f' : α → Build σ' (Result Unit)}
    (hf : ∀ a, Mirrors M Eq (f a) (f' a)) (l : List α) : Mirrors M Eq (forAll f l) (forAll f' l) := by
  induction l with
  | nil => exact mirrors_pure rfl
  | cons a l ih =>
      refine (hf a).bind_same fun first => ih.bind_same fun rest => ?_
      cases first <;> exact mirrors_pure rfl

theorem mirrors_bindPart (fuel : Nat) (x : PartId) (i : Input) (b : Binding) :
    Mirrors M Eq (bindPart fuel x i b) (bindPart fuel x i (b.relabel M.label)) := by
  induction fuel generalizing x i with
  | zero => exact mirrors_outOfFuel
  | succ fuel ih =>
      refine mirrors_assembly.bind fun a a' h => ?_
      obtain ⟨none, none'⟩ | ⟨q, q', some, some', twin⟩ := rel_none_or_some (h.part? x)
      · rw [none, none']
        exact mirrors_pure rfl
      · rw [some, some']
        cases twin with
        | leaf l => exact mirrors_bindLeaf x l i b
        | @composite k k' twin =>
            have targets (sockets : List Socket) : targets k' sockets = targets k sockets := by
              rw [Build.targets, Build.targets, funext twin.child?]
            dsimp only
            rw [twin.socketsFor?, twin.graph.name]
            split
            · exact mirrors_pure rfl
            · rw [targets]
              refine (mirrors_forM (fun s => mirrors_remark _) _).bind_same fun _ => ?_
              exact mirrors_forAll (fun (t : PartId × Input) => ih t.1 t.2) _

theorem mirrors_walkFuel : Mirrors M Eq walkFuel walkFuel :=
  mirrors_assembly.bind fun _ _ h => mirrors_pure (by rw [h.size])

theorem mirrors_bindInput (x : PartId) (i : Input) (b : Binding) :
    Mirrors M Eq (bindInput x i b) (bindInput x i (b.relabel M.label)) :=
  mirrors_walkFuel.bind_same fun fuel => mirrors_bindPart fuel x i b

theorem mirrors_outputHandle (x : PartId) (output : Option String) :
    Mirrors M (Relabels M.label) (outputHandle x output) (outputHandle x output) := by
  refine mirrors_assembly.bind fun a a' h => mirrors_walkFuel.bind_same fun fuel => mirrors_ofOption ?_
  rw [h.outputHandle?]
  cases a.outputHandle? fuel x output with
  | none => exact .none
  | some res => exact .some rfl

theorem mirrors_connect (producer : PartId) (output : Option String) (consumer : PartId) (i : Input) :
    Mirrors M Eq (connect producer output consumer i) (connect producer output consumer i) := by
  exact mirrors_asTask (mirrors_andThen (mirrors_outputHandle producer output) fun h =>
    mirrors_bindInput consumer i (.node h))

theorem mirrors_closesCycle (id : PartId) (e : Edge) :
    Mirrors M (Option.Rel Composite.Twin) (closesCycle id e) (closesCycle id e) := by
  refine mirrors_assembly.bind fun a a' h => ?_
  obtain ⟨none, none'⟩ | ⟨k, k', some, some', twin⟩ := rel_none_or_some (h.composite? id)
  · rw [none, none']
    exact mirrors_pure .none
  · rw [some, some']
    dsimp only
    rw [twin.dependsOn]
    split
    · exact mirrors_pure (.some twin)
    · exact mirrors_pure .none

theorem mirrors_connectChildren (id : PartId) (e : Edge) (producer : PartId) (output : Option String)
    (consumer : PartId) (i : Input) :
    Mirrors M Eq (connectChildren id e producer output consumer i) (connectChildren id e producer output consumer i) := by
  refine (mirrors_closesCycle id e).bind fun o o' h => ?_
  cases h with
  | some twin =>
      dsimp only
      rw [twin.graph.name]
      exact mirrors_pure rfl
  | none =>
      refine (mirrors_connect producer output consumer i).bind_same fun res => ?_
      cases res with
      | error e => exact mirrors_pure rfl
      | ok => exact (mirrors_edit fun _ _ h => h.addEdge id e).bind_same fun _ => mirrors_pure rfl

end Build

end MaterialGraph
