import Mathlib.Data.List.Induction
import Mathlib.Data.List.Pairwise
import MaterialGraph.Proofs.Forest
import MaterialGraph.Renderer.Recorder

/-!
# What shader references set

A group that is reached through a shader reference has a composite of its own. There the inputs are set that the
reference binds, and then the roots of the outputs of the group are found.

* `Group.Collects` : where the groups of a selection come from.
* `Group.tasks` : what a group does with its composite, as the journal marks it.
* `tasks_of_load` : the groups of a load do this one after the other, each reference in a composite of its own.
* `overrides_of_load` : so the roots of an output are found where its shader reference, and no other, has set inputs.

Groups are told apart by names. So this takes references of one name and one graph to be the same.
-/

namespace MaterialGraph

set_option autoImplicit false

open Build Assembly

variable {σ : Type} {W : Env σ} {r : Renderer σ} {c c' : Context σ} {p : Place}

/-! ## Groups of a selection -/

namespace Group

def single (x : OutputKind × Candidate) : Group := ⟨x.2.graph, x.2.shaderRef, [(x.1, x.2.output)]⟩

theorem ofSelected_append (selected : List (OutputKind × Candidate)) (x : OutputKind × Candidate) :
    ofSelected (selected ++ [x]) = insert (single x) (ofSelected selected) := by
  rw [ofSelected, List.foldl_append]
  rfl

/-- What an insertion leads to: groups that are there, the new one, or one of its key with more outputs. -/
theorem mem_insert {g h : Group} {gs : List Group} (mem : h ∈ insert g gs) :
    h = g ∨ h ∈ gs ∨ ∃ old ∈ gs, old.key = g.key ∧ h = { old with outputs := old.outputs ++ g.outputs } := by
  induction gs with
  | nil => exact .inl (List.mem_singleton.1 mem)
  | cons old gs ih =>
      rw [insert] at mem
      split at mem
      · next same =>
        rcases List.mem_cons.1 mem with rfl | mem
        · exact .inr (.inr ⟨old, List.mem_cons_self, same.symm, rfl⟩)
        · exact .inr (.inl (List.mem_cons_of_mem _ mem))
      · split at mem
        · exact (List.mem_cons.1 mem).imp_right .inl
        · rcases List.mem_cons.1 mem with rfl | mem
          · exact .inr (.inl List.mem_cons_self)
          · rcases ih mem with new | there | ⟨old', there, same⟩
            · exact .inl new
            · exact .inr (.inl (List.mem_cons_of_mem _ there))
            · exact .inr (.inr ⟨old', List.mem_cons_of_mem _ there, same⟩)

/-- The outputs of a group are selected, and their key is that of the group; its graph and its shader reference are
those of an output of that key. -/
structure Collects (selected : List (OutputKind × Candidate)) (g : Group) : Prop where
  outputs : ∀ o ∈ g.outputs, ∃ x ∈ selected, o = (x.1, x.2.output) ∧ (single x).key = g.key
  leader : ∃ x ∈ selected, x.2.graph = g.graph ∧ x.2.shaderRef = g.shaderRef

theorem Collects.single {selected : List (OutputKind × Candidate)} {x : OutputKind × Candidate} (hx : x ∈ selected) :
    Collects selected (single x) where
  outputs _ ho := ⟨x, hx, List.mem_singleton.1 ho, rfl⟩
  leader := ⟨x, hx, rfl, rfl⟩

theorem Collects.mono {selected selected' : List (OutputKind × Candidate)} {g : Group} (h : Collects selected g)
    (sub : selected ⊆ selected') : Collects selected' g where
  outputs o ho :=
    let ⟨x, hx, same⟩ := h.outputs o ho
    ⟨x, sub hx, same⟩
  leader :=
    let ⟨x, hx, same⟩ := h.leader
    ⟨x, sub hx, same⟩

/-- The groups of a selection collect what is selected. -/
theorem collects_ofSelected (selected : List (OutputKind × Candidate)) :
    ∀ g ∈ ofSelected selected, Collects selected g := by
  induction selected using List.reverseRecOn with
  | nil => exact nofun
  | append_singleton selected x ih =>
      intro g hg
      have more : selected ⊆ selected ++ [x] := List.subset_append_left _ _
      have new : Collects (selected ++ [x]) (single x) :=
        .single (List.mem_append_right _ (List.mem_singleton_self _))
      rw [ofSelected_append] at hg
      rcases mem_insert hg with rfl | there | ⟨old, there, same, rfl⟩
      · exact new
      · exact (ih g there).mono more
      · have before := (ih old there).mono more
        refine ⟨fun o ho => ?_, before.leader⟩
        rcases List.mem_append.1 ho with ho | ho
        · exact before.outputs o ho
        · obtain ⟨y, hy, output, key⟩ := new.outputs o ho
          exact ⟨y, hy, output, key.trans same.symm⟩

end Group

theorem Slot.candidate?_eq_some {slot : Slot} {cand : Candidate} : slot.candidate? = some cand ↔ slot = .filled cand := by
  cases slot <;> simp [Slot.candidate?]

theorem Selection.mem_selected {s : Selection} {k : OutputKind} {cand : Candidate} :
    (k, cand) ∈ s.selected ↔ s.get k = .filled cand := by
  rw [selected, List.mem_filterMap]
  constructor
  · rintro ⟨k', -, found⟩
    obtain ⟨_, found, same⟩ := Option.map_eq_some_iff.1 found
    cases same
    exact Slot.candidate?_eq_some.1 found
  · intro h
    refine ⟨k, by cases k <;> simp [OutputKind.all], ?_⟩
    rw [Slot.candidate?_eq_some.2 h]
    rfl

/-! ## Tasks of groups -/

def Event.groupTask? : Event → Option Task
  | edited (.began (.override id r i)) => some (.override id r i)
  | edited (.began (.root id k)) => some (.root id k)
  | _ => none

/-- The tasks of groups that begin, in the order of the events. -/
def groupTasks (j : List Event) : List Task := j.filterMap Event.groupTask?

def Group.tasks (g : Group) (id : PartId) : List Task :=
  (g.shaderRef.toList.flatMap fun r => r.bindInputs.map (.override id r)) ++ g.outputs.map fun o => .root id o.1

namespace Build

/-- The tasks of groups that begin on the way from one context to another. -/
def Does (ts : List Task) (c c' : Context σ) : Prop := groupTasks c'.journal = ts.reverse ++ groupTasks c.journal

namespace Does

variable {ts ts₁ : List Task} {c₁ : Context σ}

theorem trans (h₁ : Does ts c c₁) (h₂ : Does ts₁ c₁ c') : Does (ts ++ ts₁) c c' := by
  unfold Does at *
  rw [h₂, h₁, List.reverse_append, List.append_assoc]

theorem quiet (h : Does ts c c₁) (rest : Does [] c₁ c') : Does ts c c' := by
  simpa using h.trans rest

theorem of_only (h : Only (fun e => e.groupTask? = none) c c') : Does [] c c' := h.filterMap_eq fun _ he => he

theorem of_leafwork (h : Leafwork c c') : Does [] c c' := by
  refine of_only (h.mono fun e he => ?_)
  unfold Event.groupTask?
  split
  · exact he.elim
  · exact he.elim
  · rfl

theorem edit {e : Edit} (h : Does ts c c₁) (other : (Event.edited e).groupTask? = none) : Does ts c (c₁.edit e) := by
  unfold Does groupTasks at *
  rw [Context.edit_journal, List.filterMap_cons_none other, h]

theorem message {e : Event} (message : IsMessage e) : Does [] c (c.push e) := of_leafwork (.message message)

end Does

theorem Barren.does (h : Barren r c c') : Does [] c c' := by
  induction h with
  | refl => rfl
  | trans _ _ ih₁ ih₂ => exact ih₁.trans ih₂
  | message c message => exact .message message
  | task _ ih => exact ih
  | failed _ creation => exact .of_leafwork creation.leafwork
  | composite => rfl

/-- A run is no task of a group. -/
theorem Run.does {ph : Phase} {id : PartId} {s : Nat} (h : Run W ph id s c c') : Does [] c c' := by
  induction h with
  | refl => rfl
  | trans _ _ ih₁ ih₂ => exact ih₁.trans ih₂
  | message c message => exact .message message
  | barren barren => exact barren.does
  | task _ _ ih => exact ih
  | leafChild _ _ _ makes => exact ((Does.of_leafwork makes.leafwork).edit rfl).edit rfl
  | compositeChild _ _ _ _ _ _ ih => exact ih
  | socket => rfl
  | literal _ binds => exact .of_leafwork binds.leafwork
  | inside _ _ _ _ connects => exact (Does.of_leafwork connects.leafwork).edit rfl
  | insideFailed _ _ _ _ connects => exact .of_leafwork connects.leafwork
  | geometry _ creation => exact ((Does.of_leafwork creation.leafwork).edit rfl).edit rfl
  | top => rfl
  | viaTop _ _ _ ih => exact ih
  | viaGraph starts _ ih =>
      cases starts <;> exact ih
  | outside _ _ connects => exact .of_leafwork connects.leafwork

theorem after_setBindInput_does {id : PartId} {ref : ShaderRef} {i : Input} :
    After (setBindInput id ref i) (W.at p) c fun _ c' => Does [.override id ref i] c c' := by
  refine after_setBindInput.mono ?_
  rintro _ c₁ ⟨inner⟩
  exact inner.does

theorem after_setBindInputs_does {id : PartId} {ref : ShaderRef} {is : List Input} :
    After (is.forM (setBindInput id ref)) (W.at p) c fun _ c' => Does (is.map (.override id ref)) c c' := by
  induction is generalizing c with
  | nil => exact after_pure.2 rfl
  | cons i is ih =>
      rw [show (i :: is).forM (setBindInput (σ := σ) id ref) = (setBindInput id ref i >>= fun _ => is.forM _) from rfl,
        after_bind]
      exact after_setBindInput_does.mono fun _ c₁ first => ih.mono fun _ c₂ rest => first.trans rest

/-- To look for a root is one task. -/
theorem after_innerPart_does {child : PartId} {graph : Graph} {o : Output} :
    After (innerPart child graph o) (W.at p) c fun _ c' => Does [] c c' := by
  rw [innerPart]
  split
  · rw [after_bind, after_warn, after_pure]
    exact .message (.warning _)
  · dsimp only
    split
    · exact after_pure.2 rfl
    · next name _ =>
      rw [after_bind]
      refine (sound_part p child name c).mono fun res c₁ gives => ?_
      have found := (gives.run (s := 0)).does
      cases res with
      | none => exact after_pure.2 found
      | some x =>
          dsimp only
          rw [after_bind, after_assembly, after_pure]
          exact found

theorem after_outputLeaf_does {id : PartId} {o : Output} :
    After (outputLeaf id o) (W.at p) c fun _ c' => Does [] c c' := by
  rw [outputLeaf, after_bind, after_assembly]
  split
  · exact after_pure.2 rfl
  · split
    · exact after_pure.2 rfl
    · exact after_pure.2 rfl
    · exact after_innerPart_does

theorem after_rootOf_does {g : Group} {id : PartId} {kind : OutputKind} {o : Output} :
    After (rootOf g id kind o) (W.at p) c fun _ c' => Does [] c c' := by
  rw [rootOf, after_bind]
  refine after_outputLeaf_does.mono fun res c₁ found => ?_
  have warned (w : Warning) : Does [] c (c₁.push (.warned w)) := found.trans (.message (.warning w))
  cases res with
  | none =>
      dsimp only
      rw [after_bind, after_warn, after_pure]
      exact warned _
  | some leaf =>
      dsimp only
      rw [after_bind, after_assembly]
      split
      · rw [after_bind, after_warn, after_pure]
        exact warned _
      · split
        · rw [after_bind, wrapSurface]
          split
          · rw [after_andThen]
            refine after_createLeaf.mono fun res c₂ creation => ⟨?_, ?_⟩
            · rintro l rfl
              rw [after_bind, after_addPart, after_pure]
              exact after_pure.2 ((found.trans (.of_leafwork creation.leafwork)).edit rfl)
            · rintro e rfl
              dsimp only
              rw [after_bind, after_warn, after_pure]
              exact (found.trans (.of_leafwork creation.leafwork)).trans (.message (.warning _))
          · rw [after_pure]
            dsimp only
            rw [after_bind, after_warn, after_pure]
            exact warned _
        · exact after_pure.2 found

theorem after_addRoots_does {g : Group} {id : PartId} {outputs : List (OutputKind × Output)} {harvest : Harvest} :
    After (outputs.foldlM (addRoot g id) harvest) (W.at p) c fun _ c' =>
      Does (outputs.map fun o => .root id o.1) c c' := by
  induction outputs generalizing c harvest with
  | nil => exact after_pure.2 rfl
  | cons o outputs ih =>
      rw [List.foldlM_cons, after_bind, addRoot, after_bind, after_asTask]
      refine after_rootOf_does.mono fun res c₁ found => ?_
      have first : Does [.root id o.1] c (c₁.edit (.ended (.root id o.1) res.1.isSome)) := found
      obtain ⟨root, added⟩ := res
      cases root <;> exact after_pure.2 (ih.mono fun _ c₂ rest => first.trans rest)

theorem after_reportGroup_does {e : LoadError} :
    After (reportGroup e) (W.at p) c fun _ c' => Does [] c c' := by
  unfold reportGroup
  split
  · rw [after_remark]
    exact .message (.remark _ _)
  · rw [after_warn]
    exact .message (.warning _)

/-! ## Composites of groups -/

/-- The composite of a group: a new one that is not shared, or one that is shared. -/
structure Hosts (g : Group) (c : Context σ) (id : PartId) (c' : Context σ) : Prop where
  there : id < c'.assembly.size
  own : g.shaderRef.isSome → c.assembly.size ≤ id ∧ id ∉ sharing c'.journal
  shared : g.shaderRef = none → id ∈ sharing c'.journal

/-- What is not shared stays so, if all that is built later is shared at most with later parts. -/
theorem Hosts.grows {g : Group} {id : PartId} {c₁ : Context σ} (h : Hosts g c id c₁)
    (grows : Grows c₁.assembly.size c₁ c') (steps : Steps r c₁ c') : Hosts g c id c' where
  there := Nat.lt_of_lt_of_le h.there steps.extends.size
  own isOwn :=
    let ⟨new, unshared⟩ := h.own isOwn
    ⟨new, fun hm => (grows.sharing id hm).elim unshared fun hn => Nat.not_lt.2 hn h.there⟩
  shared isShared := (steps.moves.suffix.sublist.filterMap _).subset (h.shared isShared)

theorem Hosts.of_shared {g : Group} {id : PartId} (none : g.shaderRef = none) (orderly : Orderly c')
    (shared : id ∈ sharing c'.journal) : Hosts g c id c' where
  there := orderly.lt_of_sharing shared
  own isOwn := by
    rw [none] at isOwn
    cases isOwn
  shared _ := shared

theorem after_groupComposite_does {g : Group} (orderly : Orderly c) :
    After (groupComposite g) (W.at p) c fun res c' =>
      Orderly c' ∧ Does [] c c' ∧ ∀ id, res = .ok id → Hosts g c id c' := by
  rw [groupComposite]
  split
  · next graph ref own =>
    have added := (Grows.addComposite orderly g.graph (c.assembly.size + 1)).orderly
    have size : (c.edit (.add (.composite { graph := g.graph }))).assembly.size = c.assembly.size + 1 := size_add _
    refine after_buildComposite_run.mono ?_
    rintro res c₁ ⟨run, is⟩
    have grows := size ▸ run.grows added
    refine ⟨grows.orderly, run.does, fun id hid => ?_⟩
    cases is id hid
    refine ⟨Nat.lt_of_lt_of_le (Nat.lt_of_lt_of_eq (Nat.lt_succ_self _) size.symm) run.steps.extends.size,
      fun _ => ⟨Nat.le_refl _, fun hm => ?_⟩, fun none => by rw [own] at none; cases none⟩
    rcases grows.sharing _ hm with before | later
    · exact Nat.lt_irrefl _ (orderly.lt_of_sharing before)
    · exact Nat.not_succ_le_self _ later
  · next d _ none =>
    rw [after_bind]
    refine after_topComposite.mono ?_
    rintro t c₁ ⟨top, run⟩
    have run : Run W .asking 0 0 c c₁ := run .asking 0 0
    rw [after_andThen]
    refine (after_buildOutputs (s := c₁.assembly.size) sound_part).mono ?_
    rintro res c₂ ⟨run₂, -⟩
    have grows := run₂.grows (run.grows orderly).orderly
    have does := run.does.trans run₂.does
    refine ⟨fun _ _ => after_pure.2 ⟨grows.orderly, does, ?_⟩, fun _ _ => ⟨grows.orderly, does, by rintro _ ⟨⟩⟩⟩
    rintro _ ⟨⟩
    have shared := grows.orderly.sharing_of_mem_shared (mem_shared.2 (.inl (run₂.steps.extends.top top)))
    exact .of_shared none grows.orderly shared
  · next n _ none =>
    refine (after_freeStandingGraph sound_part).mono ?_
    rintro res c₁ ⟨run, known⟩
    have run : Run W .asking 0 0 c c₁ := run .asking 0 0
    have grows := run.grows orderly
    refine ⟨grows.orderly, run.does, fun id hid => ?_⟩
    have shared := grows.orderly.sharing_of_mem_shared
      (mem_shared.2 (.inr (.inr ⟨n.name, _, known id hid, rfl⟩)))
    exact .of_shared none grows.orderly shared

/-- How the construction of a group ends: without a task, or with all its tasks in one composite. -/
inductive Undertakes (g : Group) (c c' : Context σ) : Prop
  | nothing (does : Does [] c c')
  | all {id : PartId} (hosts : Hosts g c id c') (does : Does (g.tasks id) c c')

theorem after_buildGroup_does {harvest : Harvest} {g : Group} (orderly : Orderly c) :
    After (buildGroup harvest g) (W.at p) c fun _ c' => Undertakes g c c' := by
  rw [buildGroup, after_bind]
  refine (after_groupComposite_does orderly).mono ?_
  rintro res c₁ ⟨orderly₁, does, hosts⟩
  cases res with
  | error e =>
      dsimp only
      rw [after_bind]
      exact after_reportGroup_does.mono fun _ c₂ reports => after_pure.2 (.nothing (does.trans reports))
  | ok id =>
      have known (c : Context σ) : Reached c.assembly (harvest.add id).parts id :=
        ⟨id, List.mem_append_left _ (List.mem_append_right _ (List.mem_singleton_self _)), .refl⟩
      -- once the inputs are set, the roots are found
      have finish {c₂ : Context σ} (works : Works W (harvest.add id) c₁ (harvest.add id) c₂) (overrides :
          Does (g.shaderRef.toList.flatMap fun ref => ref.bindInputs.map (.override id ref)) c₁ c₂) :
          After (g.outputs.foldlM (addRoot g id) (harvest.add id)) (W.at p) c₂ fun _ c₃ => Undertakes g c c₃ :=
        (after_addRoots_does.and (after_addRoots _ _ works (known c₂))).mono fun _ c₃ both =>
          .all ((hosts id rfl).grows (both.2.grows orderly₁) both.2.steps) (does.trans (overrides.trans both.1))
      cases ref? : g.shaderRef with
      | none => exact finish (.refl _ _) (by rw [ref?]; rfl)
      | some ref =>
          dsimp only
          rw [after_bind]
          refine (after_setBindInputs_does.and (after_forM
            (I := fun c₂ => Works W (harvest.add id) c₁ (harvest.add id) c₂) (fun i _ c₂ works =>
              after_setBindInput.mono fun _ _ sets => works.trans (sets.works (known c₂))) (.refl _ _))).mono
            fun _ c₂ both => ?_
          exact finish both.2 (by rw [ref?]; simpa using both.1)

/-! ## Loads -/

/-- The composite of a shader reference belongs to one group alone. -/
def Apart (built : List (PartId × Group)) : Prop :=
  built.Pairwise fun x y => x.2.shaderRef.isSome ∨ y.2.shaderRef.isSome → x.1 ≠ y.1

def allTasks (built : List (PartId × Group)) : List Task := built.flatMap fun x => x.2.tasks x.1

/-- How the construction of groups ends: those for which there is a composite do their tasks one after the other. -/
structure Undertake (gs : List Group) (c : Context σ) (built : List (PartId × Group)) (c' : Context σ) : Prop where
  groups : ∀ x ∈ built, x.2 ∈ gs
  does : Does (allTasks built) c c'
  hosts : ∀ x ∈ built, Hosts x.2 c x.1 c'
  apart : Apart built

theorem after_buildGroups_does {gs : List Group} {harvest : Harvest} (orderly : Orderly c) :
    After (gs.foldlM buildGroup harvest) (W.at p) c fun _ c' => ∃ built, Undertake gs c built c' := by
  induction gs generalizing c harvest with
  | nil => exact after_pure.2 ⟨[], nofun, rfl, nofun, .nil⟩
  | cons g gs ih =>
      rw [List.foldlM_cons, after_bind]
      refine ((after_buildGroup_does orderly).and after_buildGroup).mono ?_
      rintro harvest₁ c₁ ⟨first, works₁⟩
      have grows₁ := works₁.grows orderly
      refine ((ih grows₁.orderly).and (after_buildGroups gs harvest₁)).mono ?_
      rintro harvest₂ c₂ ⟨⟨built, rest⟩, works₂⟩
      have size := works₁.steps.extends.size
      have later : ∀ x ∈ built, Hosts x.2 c x.1 c₂ := fun x hx =>
        let ⟨there, own, shared⟩ := rest.hosts x hx
        ⟨there, fun h => ⟨Nat.le_trans size (own h).1, (own h).2⟩, shared⟩
      have groups : ∀ x ∈ built, x.2 ∈ g :: gs := fun x hx => List.mem_cons_of_mem _ (rest.groups x hx)
      cases first with
      | nothing does => exact ⟨built, groups, does.trans rest.does, later, rest.apart⟩
      | @all id hosts does =>
          have here := hosts.grows (works₂.grows grows₁.orderly) works₂.steps
          refine ⟨(id, g) :: built, ?_, does.trans rest.does, ?_, List.pairwise_cons.2 ⟨?_, rest.apart⟩⟩
          · exact List.forall_mem_cons.2 ⟨List.mem_cons_self, groups⟩
          · exact List.forall_mem_cons.2 ⟨here, later⟩
          · -- a later composite is new, or it is shared and this one is not
            rintro ⟨x, h⟩ hx owned rfl
            have there := rest.hosts _ hx
            cases own : h.shaderRef with
            | some => exact Nat.not_lt.2 (there.own (by rw [own]; rfl)).1 hosts.there
            | none =>
                rcases owned with owned | owned
                · exact (here.own owned).2 (there.shared own)
                · rw [own] at owned
                  cases owned

end Build

/-- The groups of a load that have a composite do their tasks one after the other, and nothing else does such tasks. -/
theorem tasks_of_load {l : Loader} {d : Document} {options : LoadOptions} {fileExists : String → Bool} {s : σ}
    {o : Outcome σ} (loaded : l.load d options fileExists r s = some o) :
    ∃ built, (∀ x ∈ built, x.2 ∈ l.groups d options) ∧ Apart built ∧ groupTasks o.journal = allTasks built := by
  have ended : After (loadDocument options.targets) (l.env d options fileExists r) { system := s } fun _ c' =>
      ∃ built, (∀ x ∈ built, x.2 ∈ l.groups d options) ∧ Apart built ∧ Does (allTasks built) { system := s } c' := by
    rw [loadDocument, after_bind, after_catalog]
    dsimp only
    rw [after_within]
    split
    · rw [after_bind, after_warn, after_pure]
      exact ⟨[], by rintro _ ⟨⟩, .nil, .message (.warning _)⟩
    · rw [loadSelection, after_bind]
      refine (after_buildGroups_does (.start s)).mono ?_
      rintro harvest c ⟨built, groups, does, -, apart⟩
      have released (xs : List PartId) (c₁ : Context σ) : Does [] c₁ (releasedAll r xs c₁) :=
        .of_leafwork (leafwork_releasedAll xs c₁)
      split
      · rw [after_bind, after_catalog, after_bind, after_warn, after_bind, after_assembly, after_bind,
          after_releaseParts, after_pure]
        exact ⟨built, groups, apart, (does.quiet (.message (.warning _))).quiet (released _ _)⟩
      · rw [handOver, after_bind, after_assembly]
        dsimp only
        rw [after_bind, after_releaseParts, after_bind, after_emit, after_pure]
        exact ⟨built, groups, apart, (does.quiet (released _ _)).quiet (.message (.finished _ _ _))⟩
  obtain ⟨c', loaded, -, journal⟩ := built_of_load loaded
  obtain ⟨built, groups, apart, does⟩ := ended _ _ loaded
  refine ⟨built, groups, apart, ?_⟩
  rw [journal, groupTasks, List.filterMap_reverse]
  rw [Does, groupTasks] at does
  rw [does]
  simp [groupTasks]

/-! ## Inputs that shader references set -/

def Task.override? (id : PartId) : Task → Option (ShaderRef × Input)
  | override x r i => if x = id then some (r, i) else none
  | _ => none

/-- The kind whose root is looked for, and the composite. -/
def Task.rootSite? : Task → Option (OutputKind × PartId)
  | root id k => some (k, id)
  | _ => none

/-- The inputs that shader references set in a composite, in the order of the events. -/
def overridesIn (id : PartId) (j : List Event) : List (ShaderRef × Input) :=
  (groupTasks j).filterMap (Task.override? id)

/-- The kinds whose roots are looked for, each with the composite, in the order of the events. -/
def rootSites (j : List Event) : List (OutputKind × PartId) := (groupTasks j).filterMap Task.rootSite?

theorem Group.override?_tasks (g : Group) (x id : PartId) :
    (g.tasks x).filterMap (Task.override? id) =
      if x = id then g.shaderRef.toList.flatMap fun r => r.bindInputs.map (r, ·) else [] := by
  have roots : (g.outputs.map fun o => Task.root x o.1).filterMap (Task.override? id) = [] := by
    rw [List.filterMap_map]
    exact List.filterMap_eq_nil_iff.2 fun _ _ => rfl
  rw [tasks, List.filterMap_append, roots, List.append_nil]
  cases g.shaderRef with
  | none => simp
  | some r =>
      rw [Option.toList_some, List.flatMap_singleton, List.flatMap_singleton, List.filterMap_map]
      split
      · next same =>
        subst same
        rw [← List.filterMap_eq_map]
        exact congrArg (List.filterMap · r.bindInputs) (funext fun i => if_pos rfl)
      · next other => exact List.filterMap_eq_nil_iff.2 fun _ _ => if_neg other

theorem Group.mem_rootSites_tasks {g : Group} {x id : PartId} {k : OutputKind} :
    (k, id) ∈ (g.tasks x).filterMap Task.rootSite? ↔ x = id ∧ ∃ o ∈ g.outputs, o.1 = k := by
  rw [tasks, List.mem_filterMap]
  constructor
  · rintro ⟨t, ht, site⟩
    rcases List.mem_append.1 ht with ht | ht
    · obtain ⟨r, -, ht⟩ := List.mem_flatMap.1 ht
      obtain ⟨i, -, rfl⟩ := List.mem_map.1 ht
      cases site
    · obtain ⟨o, ho, rfl⟩ := List.mem_map.1 ht
      cases site
      exact ⟨rfl, o, ho, rfl⟩
  · rintro ⟨rfl, o, ho, rfl⟩
    exact ⟨_, List.mem_append_right _ (List.mem_map.2 ⟨o, ho, rfl⟩), rfl⟩

theorem mem_rootSites_allTasks {built : List (PartId × Group)} {k : OutputKind} {id : PartId} :
    (k, id) ∈ (allTasks built).filterMap Task.rootSite? ↔ ∃ g, (id, g) ∈ built ∧ ∃ o ∈ g.outputs, o.1 = k := by
  rw [allTasks, List.filterMap_flatMap, List.mem_flatMap]
  constructor
  · rintro ⟨⟨x, g⟩, mem, site⟩
    obtain ⟨rfl, output⟩ := Group.mem_rootSites_tasks.1 site
    exact ⟨g, mem, output⟩
  · rintro ⟨g, mem, output⟩
    exact ⟨(id, g), mem, Group.mem_rootSites_tasks.2 ⟨rfl, output⟩⟩

/-- In the composite of a shader reference, that reference sets its inputs in order, and no other sets any. -/
theorem Build.Apart.overrides {built : List (PartId × Group)} (apart : Apart built) {id : PartId} {g : Group}
    (mem : (id, g) ∈ built) {r : ShaderRef} (through : g.shaderRef = some r) :
    (allTasks built).filterMap (Task.override? id) = r.bindInputs.map (r, ·) := by
  have none {rest : List (PartId × Group)} (other : ∀ x ∈ rest, x.1 ≠ id) :
      (allTasks rest).filterMap (Task.override? id) = [] := by
    rw [allTasks, List.filterMap_flatMap]
    refine List.flatMap_eq_nil_iff.2 fun x hx => ?_
    rw [Group.override?_tasks, if_neg (other x hx)]
  have owned : g.shaderRef.isSome := by rw [through]; rfl
  induction built with
  | nil => cases mem
  | cons x rest ih =>
      obtain ⟨first, apart⟩ := List.pairwise_cons.1 apart
      have split : (allTasks (x :: rest)).filterMap (Task.override? id) =
          (x.2.tasks x.1).filterMap (Task.override? id) ++ (allTasks rest).filterMap (Task.override? id) := by
        rw [allTasks, List.flatMap_cons, List.filterMap_append]
        rfl
      rw [split, Group.override?_tasks]
      rcases List.mem_cons.1 mem with rfl | mem
      · rw [if_pos rfl, none fun y hy => (first y hy (.inl owned)).symm, List.append_nil, through]
        exact List.flatMap_singleton _ _
      · rw [if_neg (first _ mem (.inr owned)), List.nil_append]
        exact ih apart mem

/-- Two groups of one composite are the same if one of them comes from a shader reference. -/
theorem Build.Apart.eq {built : List (PartId × Group)} (apart : Apart built) {id : PartId} {g h : Group}
    (hg : (id, g) ∈ built) (hh : (id, h) ∈ built) (owned : g.shaderRef.isSome) : g = h := by
  refine Classical.byContradiction fun hne => ?_
  have symm : Std.Symm fun x y : PartId × Group => x.2.shaderRef.isSome ∨ y.2.shaderRef.isSome → x.1 ≠ y.1 :=
    ⟨fun x y apart owned same => apart owned.symm same.symm⟩
  exact List.Pairwise.forall apart hg hh (fun same => hne (congrArg Prod.snd same)) (.inl owned) rfl

/-- Selected outputs that are grouped together come from the same shader reference. -/
def Selection.Distinguishes (s : Selection) : Prop :=
  ∀ x ∈ s.selected, ∀ y ∈ s.selected, (Group.single x).key = (Group.single y).key → x.2.shaderRef = y.2.shaderRef

instance Selection.Distinguishes.decide (s : Selection) : Decidable s.Distinguishes :=
  inferInstanceAs (Decidable (∀ x ∈ s.selected, ∀ y ∈ s.selected, _))

/-- The root of an output that is selected through a shader reference is looked for in a composite in which that
reference sets its inputs in order, and no other sets any; all outputs whose roots are looked for there come from that
reference. -/
theorem overrides_of_load {l : Loader} {d : Document} {options : LoadOptions} {fileExists : String → Bool} {s : σ}
    {o : Outcome σ} (loaded : l.load d options fileExists r s = some o)
    (distinguishes : (Selection.choose (l.catalog d) options.targets).Distinguishes) {k : OutputKind} {cand : Candidate}
    {ref : ShaderRef} (filled : (Selection.choose (l.catalog d) options.targets).get k = .filled cand)
    (through : cand.shaderRef = some ref) {id : PartId} (site : (k, id) ∈ rootSites o.journal) :
    overridesIn id o.journal = ref.bindInputs.map (ref, ·) ∧
      ∀ k' cand', (Selection.choose (l.catalog d) options.targets).get k' = .filled cand' →
        (k', id) ∈ rootSites o.journal → cand'.shaderRef = some ref := by
  obtain ⟨built, groups, apart, tasks⟩ := tasks_of_load loaded
  -- the group of an output comes from the reference of that output
  have source {k : OutputKind} {cand : Candidate}
      (filled : (Selection.choose (l.catalog d) options.targets).get k = .filled cand) {g : Group}
      (mem : (id, g) ∈ built) {out : OutputKind × Output} (ho : out ∈ g.outputs) (kind : out.1 = k) :
      g.shaderRef = cand.shaderRef := by
    have collects := Group.collects_ofSelected _ g (groups _ mem)
    obtain ⟨⟨k₁, cand₁⟩, mem₁, rfl, key₁⟩ := collects.outputs out ho
    obtain ⟨leader, mem₂, graph, shader⟩ := collects.leader
    cases kind
    cases filled.symm.trans (Selection.mem_selected.1 mem₁)
    rw [← shader]
    refine distinguishes leader mem₂ _ mem₁ ?_
    rw [key₁]
    unfold Group.key Group.single
    rw [graph, shader]
  rw [rootSites, tasks] at site
  obtain ⟨g, mem, out, ho, kind⟩ := mem_rootSites_allTasks.1 site
  have own : g.shaderRef = some ref := (source filled mem ho kind).trans through
  constructor
  · rw [overridesIn, tasks]
    exact apart.overrides mem own
  · intro k' cand' filled' site'
    rw [rootSites, tasks] at site'
    obtain ⟨g', mem', out', ho', kind'⟩ := mem_rootSites_allTasks.1 site'
    cases apart.eq mem mem' (by rw [own]; rfl)
    exact (source filled' mem ho' kind').symm.trans own

/-- A shader reference that sets how strong an embossing is. -/
def emboss (name strength : String) : ShaderRef where
  name := name
  node := "emboss"
  bindInputs := [{ name := "strength", type := "float", value := some strength }]

/-- Two materials, the shader references of which lead to one graph with a surface and a displacement. -/
def embossed (first second : String) : Document where
  nodeDefs := [
    { name := "ND_add", node := "add", type := "float"
      inputs := [{ name := "in1", type := "float" }, { name := "in2", type := "float" }] },
    { name := "ND_emboss", node := "emboss", type := "surfaceshader", nodeGraph := some "NG_emboss"
      inputs := [{ name := "strength", type := "float", value := some "0.5" }] }]
  nodeGraphs := [
    { name := "NG_emboss", nodeDef := some "ND_emboss"
      nodes := [
        { name := "a", category := "add", type := "float"
          inputs := [{ name := "in1", type := "float", interfaceName := some "strength" }] }]
      outputs := [
        { name := "shine", type := "surfaceshader", nodeName := some "a" },
        { name := "bump", type := "displacementshader", nodeName := some "a" }] }]
  materials := [
    { name := "m", shaderRefs := [emboss first "0.25"] },
    { name := "n", shaderRefs := [emboss second "0.75"] }]

/-- The surface of the first material and the displacement of the second. -/
def embossedBoth : LoadOptions where
  targets := some ⟨"m", "n"⟩

/-- References of two names have a composite each, and the second sets its input in part 2. -/
theorem overrides_of_load_twoNames :
    ∃ o, Loader.load {} (embossed "s" "t") embossedBoth (fun _ => false) Recorder.renderer {} = some o ∧
      rootSites o.journal = [(.surface, 0), (.displacement, 2)] ∧
        overridesIn 2 o.journal = (emboss "t" "0.75").bindInputs.map (emboss "t" "0.75", ·) := by
  have evaluated : (Loader.load {} (embossed "s" "t") embossedBoth (fun _ => false) Recorder.renderer {}).map
      (fun o => rootSites o.journal) = some [(.surface, 0), (.displacement, 2)] := by
    decide +kernel
  obtain ⟨o, loaded, sites⟩ := Option.map_eq_some_iff.1 evaluated
  obtain ⟨cand, filled, through⟩ : ∃ cand : Candidate,
      (Selection.choose (Loader.catalog {} (embossed "s" "t")) embossedBoth.targets).get .displacement =
        .filled cand ∧ cand.shaderRef = some (emboss "t" "0.75") := by
    have chosen : ((Selection.choose (Loader.catalog {} (embossed "s" "t")) embossedBoth.targets).get
        .displacement).candidate?.bind Candidate.shaderRef = some (emboss "t" "0.75") := by decide +kernel
    obtain ⟨cand, filled, through⟩ := Option.bind_eq_some_iff.1 chosen
    exact ⟨cand, Slot.candidate?_eq_some.1 filled, through⟩
  have site : (OutputKind.displacement, 2) ∈ rootSites o.journal := by
    rw [sites]
    decide
  have set := overrides_of_load loaded (by decide +kernel) filled through site
  exact ⟨o, loaded, sites, set.1⟩

/-- References of one name share a composite, part 0: the displacement is selected through the second reference, but
the first alone has set the input where the root of the displacement is looked for. -/
theorem namesakes_share_overrides :
    ∃ o, Loader.load {} (embossed "s" "s") embossedBoth (fun _ => false) Recorder.renderer {} = some o ∧
      ((Selection.choose (Loader.catalog {} (embossed "s" "s")) embossedBoth.targets).get
        .displacement).candidate?.bind Candidate.shaderRef = some (emboss "s" "0.75") ∧
      (.displacement, 0) ∈ rootSites o.journal ∧
        overridesIn 0 o.journal = (emboss "s" "0.25").bindInputs.map (emboss "s" "0.25", ·) := by
  have evaluated : (Loader.load {} (embossed "s" "s") embossedBoth (fun _ => false) Recorder.renderer {}).map
      (fun o => (rootSites o.journal, overridesIn 0 o.journal)) =
        some ([(.surface, 0), (.displacement, 0)], (emboss "s" "0.25").bindInputs.map (emboss "s" "0.25", ·)) := by
    decide +kernel
  obtain ⟨o, loaded, same⟩ := Option.map_eq_some_iff.1 evaluated
  obtain ⟨sites, overrides⟩ := Prod.mk.inj same
  exact ⟨o, loaded, by decide +kernel, by rw [sites]; decide, overrides⟩

end MaterialGraph
