import MaterialGraph.Proofs.Reach

/-!
# Nodes that are borrowed

A node is owned by one leaf, but others can hold it or be bound to it. Only a displacement gives up a node that it owns,
a constant that another value replaces. What borrows that constant does not hear of it.

* `Displaced` : a handle has been the constant of a displacement.
* `Traced` : every handle that is held or has been bound is owned, or displaced.
* `Step.traces` : one step keeps it so.
* `no_use_after_delete` : what a load has deleted it neither acts on nor binds, displaced constants apart.
-/

namespace MaterialGraph

set_option autoImplicit false

open Build Assembly Relation

variable {σ : Type} {r : Renderer σ} {W : Env σ} {c c' : Context σ} {g h : Handle} {j : List Event}

def Event.source? : Event → Option Handle
  | acted (.bind _ _ (.node g)) _ => some g
  | _ => none

theorem Event.source_named {e : Event} (source : e.source? = some g) : g ∈ e.names := by
  unfold source? at source
  split at source
  · cases source
    exact List.mem_cons_of_mem _ (List.mem_singleton_self _)
  · cases source

/-- A handle has been created and not deleted, however often it has been created. -/
def Alive (j : List Event) (g : Handle) : Prop := ∃ rest, (g :: (rest ++ deleted j)).Perm (created j)

/-- A handle has been the constant of a displacement. -/
def Displaced (j : List Event) (g : Handle) : Prop :=
  ∃ x name, Event.edited (.leaf x ⟨.owned g, .displacement name⟩) ∈ j

/-- No event of a journal, which lists the latest first, binds a handle that is not alive, displaced ones apart. -/
def Sourced : List Event → Prop
  | [] => True
  | e :: j => (∀ g ∈ e.source?, Alive j g ∨ Displaced j g) ∧ Sourced j

theorem Alive.notMem_deleted (alive : Alive j g) (nodup : (created j).Nodup) : g ∉ deleted j := by
  obtain ⟨rest, account⟩ := alive
  have := account.nodup_iff.2 nodup
  rw [List.nodup_cons] at this
  exact fun hd => this.1 (List.mem_append_right _ hd)

/-- What is alive stays alive until it is deleted. -/
theorem Alive.push {e : Event} (alive : Alive j g) (kept : e.deleted? = none) : Alive (e :: j) g := by
  obtain ⟨rest, account⟩ := alive
  have hd : deleted (e :: j) = deleted j := List.filterMap_cons_none kept
  unfold Alive
  rw [hd]
  cases made : e.created? with
  | none =>
      refine ⟨rest, ?_⟩
      rw [created, List.filterMap_cons_none made]
      exact account
  | some h =>
      refine ⟨h :: rest, ?_⟩
      rw [created, List.filterMap_cons_some made]
      exact (List.Perm.swap h g _).trans (account.cons h)

theorem Displaced.mono {j' : List Event} (displaced : Displaced j g) (hj : j <:+ j') : Displaced j' g :=
  let ⟨x, name, mem⟩ := displaced
  ⟨x, name, hj.subset mem⟩

theorem Sourced.of_append {j' : List Event} (sourced : Sourced (j' ++ j)) : Sourced j := by
  induction j' with
  | nil => exact sourced
  | cons e j' ih => exact ih sourced.2

namespace Build

theorem mem_owned {a : Assembly} : g ∈ owned a ↔ ∃ x l, a.leaf? x = some l ∧ l.hold.owned? = some g := by
  unfold owned
  rw [List.mem_filterMap]
  constructor
  · rintro ⟨x, -, own⟩
    obtain ⟨l, leaf, own⟩ := Option.bind_eq_some_iff.1 own
    exact ⟨x, l, leaf, own⟩
  · rintro ⟨x, l, leaf, own⟩
    exact ⟨x, List.mem_range.2 (lt_size_of_leaf? leaf), (ownedNode?_of_leaf? leaf).trans own⟩

def Backed (c : Context σ) (g : Handle) : Prop := g ∈ owned c.assembly ∨ Displaced c.journal g

/-- Every handle that is held or has been bound is owned, or has been displaced. -/
structure Traced (c : Context σ) : Prop where
  held : ∀ {x g}, Holds c.assembly x g → Backed c g
  bound : ∀ e ∈ c.journal, ∀ g ∈ e.source?, Backed c g
  constant : ∀ {x l name g}, c.assembly.leaf? x = some l → l.role = .displacement name → l.hold.owned? = some g →
    Displaced c.journal g
  sourced : Sourced c.journal

/-- All this is kept, also for a handle that is held by nothing. -/
structure Traces (c c' : Context σ) : Prop where
  traced : Traced c'
  backed : ∀ {g}, Backed c g → Backed c' g

theorem Traces.trans {c₁ : Context σ} (h₁ : Traces c c₁) (h₂ : Traces c₁ c') : Traces c c' :=
  ⟨h₂.traced, fun hg => h₂.backed (h₁.backed hg)⟩

theorem Traced.refl (h : Traced c) : Traces c c := ⟨h, id⟩

/-- An owned handle is alive. -/
theorem Accounted.alive {spare : List Handle} (acc : Accounted spare c) (own : g ∈ owned c.assembly) :
    Alive c.journal g :=
  let ⟨_, _, leaf, own⟩ := mem_owned.1 own
  acc.owned_living leaf own

def Usable (c : Context σ) (g : Handle) : Prop := Backed c g ∧ (Alive c.journal g ∨ Displaced c.journal g)

theorem Traced.usable {x : PartId} (traced : Traced c) (acc : Accounted [] c) (holds : Holds c.assembly x g) :
    Usable c g :=
  have backed := traced.held holds
  ⟨backed, backed.imp_left acc.alive⟩

/-! ## Events and edits -/

/-- An event after which the same leaves own the same. -/
theorem Traced.event {e : Event} {a : Assembly} {s : σ} (traced : Traced c)
    (leaf : ∀ x, a.leaf? x = c.assembly.leaf? x) (source : ∀ g ∈ e.source?, Usable c g) :
    Traces c { c with system := s, assembly := a, journal := e :: c.journal } := by
  have backed {g : Handle} (hg : Backed c g) :
      Backed { c with system := s, assembly := a, journal := e :: c.journal } g := by
    rcases hg with own | displaced
    · obtain ⟨x, l, there, own⟩ := mem_owned.1 own
      exact .inl (mem_owned.2 ⟨x, l, (leaf x).trans there, own⟩)
    · exact .inr (displaced.mono (List.suffix_cons _ _))
  refine ⟨⟨fun holds => ?_, ?_, fun there role own => ?_, ?_⟩, backed⟩
  · exact backed (traced.held ((Holds.congr (leaf _)).1 holds))
  · exact List.forall_mem_cons.2 ⟨fun g hg => backed (source g hg).1, fun e he g hg => backed (traced.bound e he g hg)⟩
  · exact (traced.constant ((leaf _).symm.trans there) role own).mono (List.suffix_cons _ _)
  · exact ⟨fun g hg => (source g hg).2, traced.sourced⟩

theorem Traced.push {e : Event} (traced : Traced c) (message : IsMessage e) : Traces c (c.push e) := by
  cases message <;> exact traced.event (fun _ => rfl) nofun

theorem Traced.edit {e : Edit} (traced : Traced c) (leaf : ∀ x, (c.assembly.apply e).leaf? x = c.assembly.leaf? x) :
    Traces c (c.edit e) :=
  traced.event leaf nofun

/-- Another state of a leaf: what it gives up has been displaced, what it takes is backed. -/
theorem Traced.setLeaf {x : PartId} {l l' : Leaf} (traced : Traced c) (leaf : c.assembly.leaf? x = some l)
    (lost : ∀ g, l.hold.owned? = some g → l'.hold.owned? = some g ∨ Displaced c.journal g)
    (taken : ∀ g, l'.hold.handle? = some g → l'.hold.owned? = some g ∨ Backed c g)
    (constant : ∀ name g, l'.role = .displacement name → l'.hold.owned? = some g →
      Displaced (.edited (.leaf x l') :: c.journal) g) : Traces c (c.edit (.leaf x l')) := by
  have here (y : PartId) : (c.assembly.apply (.leaf x l')).leaf? y = if y = x then some l' else c.assembly.leaf? y :=
    leaf?_leaf leaf l'
  have longer : c.journal <:+ (c.edit (.leaf x l')).journal := List.suffix_cons _ _
  have backed {g : Handle} (hg : Backed c g) : Backed (c.edit (.leaf x l')) g := by
    rcases hg with own | displaced
    · obtain ⟨y, k, there, own⟩ := mem_owned.1 own
      by_cases hy : y = x
      · rw [hy, leaf] at there
        cases there
        rcases lost g own with own | displaced
        · exact .inl (mem_owned.2 ⟨x, l', by rw [Context.edit_assembly, here, if_pos rfl], own⟩)
        · exact .inr (displaced.mono longer)
      · exact .inl (mem_owned.2 ⟨y, k, by rw [Context.edit_assembly, here, if_neg hy]; exact there, own⟩)
    · exact .inr (displaced.mono longer)
  refine ⟨⟨fun {y g} holds => ?_, ?_, fun {y k name g} there role own => ?_, ?_⟩, backed⟩
  · by_cases hy : y = x
    · rw [Holds, Context.edit_assembly, here, if_pos hy] at holds
      rcases taken g holds with own | hg
      · exact .inl (mem_owned.2 ⟨x, l', by rw [Context.edit_assembly, here, if_pos rfl], own⟩)
      · exact backed hg
    · rw [Holds, Context.edit_assembly, here, if_neg hy] at holds
      exact backed (traced.held holds)
  · exact List.forall_mem_cons.2 ⟨by rintro _ ⟨⟩, fun e he g hg => backed (traced.bound e he g hg)⟩
  · rw [Context.edit_assembly, here] at there
    by_cases hy : y = x
    · rw [if_pos hy] at there
      cases there
      exact constant name g role own
    · rw [if_neg hy] at there
      exact (traced.constant there role own).mono longer
  · exact ⟨by rintro _ ⟨⟩, traced.sourced⟩

/-! ## Creation -/

/-- What may be bound may still be bound after a call that deletes nothing. -/
theorem Usable.event {e : Event} {s : σ} (usable : Usable c g) (kept : e.deleted? = none) :
    Usable { c with system := s, journal := e :: c.journal } g :=
  ⟨usable.1.imp_right fun displaced => displaced.mono (List.suffix_cons _ _),
    usable.2.imp (fun alive => alive.push kept) fun displaced => displaced.mono (List.suffix_cons _ _)⟩

theorem Traced.created (traced : Traced c) (type : NodeType) : Traces c (c.created r type) :=
  traced.event (fun _ => rfl) nofun

theorem Traced.acted {a : Action} (traced : Traced c)
    (usable : ∀ g, (Event.acted a (r.act a c.system).1).source? = some g → Usable c g) : Traces c (c.acted r a) :=
  traced.event (fun _ => rfl) usable

theorem Traced.acts {settings : List (InputKey × Bound)} (traced : Traced c)
    (usable : ∀ key g, (key, Bound.node g) ∈ settings → Usable c g) (acts : Acts r (IsSetting h settings) c c') :
    Traces c c' ∧ ∀ key g, (key, Bound.node g) ∈ settings → Usable c' g := by
  induction acts with
  | refl => exact ⟨traced.refl, usable⟩
  | act _ ha ih =>
      obtain ⟨traces, usable⟩ := ih
      cases ha with
      | rename name =>
          exact ⟨traces.trans (traces.traced.acted nofun), fun key g mem => (usable key g mem).event rfl⟩
      | @bind key value mem =>
          refine ⟨traces.trans (traces.traced.acted fun g hg => ?_), fun key g mem => (usable key g mem).event rfl⟩
          cases value with
          | node g' =>
              cases hg
              exact usable key g mem
          | floats | word => cases hg

theorem CreatesLeaf.traces {type : NodeType} {role : Role} {settings : List (InputKey × Bound)}
    {name : Option String} {res : Result Leaf}
    (creation : CreatesLeaf r type role settings name c res c') (traced : Traced c)
    (usable : ∀ key g, (key, Bound.node g) ∈ settings → Usable c g) : Traces c c' := by
  have made := traced.created (r := r) type
  have usable' : ∀ key g, (key, Bound.node g) ∈ settings → Usable (c.created r type) g :=
    fun key g mem => (usable key g mem).event rfl
  cases creation with
  | refused => exact made
  | done _ setup => exact made.trans (made.traced.acts usable' setup.settings).1
  | undone _ setup =>
      have settled := made.trans (made.traced.acts usable' setup.settings).1
      exact settled.trans (settled.traced.acted nofun)

theorem Fixed.usable {settings : List (InputKey × Bound)} (fixed : Fixed settings) (key : InputKey) (g : Handle)
    (mem : (key, Bound.node g) ∈ settings) : Usable c g :=
  (fixed key g mem).elim

/-- A leaf that is new owns what it holds, and is no displacement unless it holds nothing. -/
theorem Traced.addLeaf {l : Leaf} (traced : Traced c) (owning : l.hold.handle? = l.hold.owned?)
    (native : ∀ name g, l.role = .displacement name → l.hold.owned? ≠ some g) : Traces c (c.edit (.add (.leaf l))) := by
  have here (x : PartId) : (c.assembly.apply (.add (.leaf l))).leaf? x =
      if x = c.assembly.size then some l else c.assembly.leaf? x := leaf?_add_leaf l
  have longer : c.journal <:+ (c.edit (.add (.leaf l))).journal := List.suffix_cons _ _
  have backed {g : Handle} (hg : Backed c g) : Backed (c.edit (.add (.leaf l))) g := by
    refine hg.imp (fun own => ?_) fun displaced => displaced.mono longer
    obtain ⟨x, k, there, own⟩ := mem_owned.1 own
    refine mem_owned.2 ⟨x, k, ?_, own⟩
    rw [Context.edit_assembly, here, if_neg (Nat.ne_of_lt (lt_size_of_leaf? there))]
    exact there
  refine ⟨⟨fun {x g} holds => ?_, ?_, fun {x k name g} there role own => ?_, ?_⟩, backed⟩
  · rw [Holds, Context.edit_assembly, here] at holds
    by_cases hx : x = c.assembly.size
    · rw [if_pos hx] at holds
      refine .inl (mem_owned.2 ⟨x, l, ?_, owning ▸ holds⟩)
      rw [Context.edit_assembly, here, if_pos hx]
    · rw [if_neg hx] at holds
      exact backed (traced.held holds)
  · exact List.forall_mem_cons.2 ⟨by rintro _ ⟨⟩, fun e he g hg => backed (traced.bound e he g hg)⟩
  · rw [Context.edit_assembly, here] at there
    by_cases hx : x = c.assembly.size
    · rw [if_pos hx] at there
      cases there
      exact absurd own (native name g role)
    · rw [if_neg hx] at there
      exact (traced.constant there role own).mono longer
  · exact ⟨by rintro _ ⟨⟩, traced.sourced⟩

/-! ## Bindings -/

/-- A displacement gives up its constant. -/
theorem Traced.released {x : PartId} {l : Leaf} {name : String} (traced : Traced c)
    (leaf : c.assembly.leaf? x = some l) (role : l.role = .displacement name) :
    Traces c (Build.released r x l c) := by
  have emptied : Traces c (c.edit (.leaf x { l with hold := .nothing })) :=
    traced.setLeaf leaf (fun g own => .inr (traced.constant leaf role own)) nofun nofun
  unfold Build.released
  cases l.hold.owned? with
  | none => exact emptied
  | some h => exact emptied.trans (emptied.traced.acted nofun)

/-- A binding keeps track, whatever it binds and however it ends. -/
theorem BindsLeaf.traces {x : PartId} {l : Leaf} {b : Binding} {res : Result Unit}
    (binds : BindsLeaf r x l b c res c') (traced : Traced c) (acc : Accounted [] c)
    (leaf : c.assembly.leaf? x = some l) (backed : ∀ g, b = .node g → Backed c g) : Traces c c' := by
  have empty := leaf?_released (r := r) leaf
  cases binds with
  | unchanged => exact traced.refl
  | called key res mem held asked =>
      refine traced.acted fun g hg => ?_
      cases asked with
      | node g' =>
          cases hg
          exact ⟨backed g rfl, (backed g rfl).imp_left acc.alive⟩
      | literal => cases hg
  | params p' role =>
      refine traced.setLeaf leaf (fun g own => .inl own) (fun g held => .inr ?_) (by rintro _ _ ⟨⟩)
      exact traced.held (x := x) (by rw [Holds, leaf]; exact held)
  | @forwarded h role node =>
      refine traced.setLeaf leaf (fun g own => ?_) (fun g held => .inr ?_) fun name g hr _ => ?_
      · rw [acc.surface leaf role] at own
        cases own
      · cases held
        exact backed h node
      · rw [role] at hr
        cases hr
  | @redirected h name role node =>
      have gone := traced.released (r := r) leaf role
      refine gone.trans (gone.traced.setLeaf empty (by rintro _ ⟨⟩) (fun g held => .inr ?_) (by rintro _ _ - ⟨⟩))
      cases held
      exact gone.backed (backed h node)
  | emptied role => exact traced.released leaf role
  | lost role _ creation =>
      have gone := traced.released (r := r) leaf role
      exact gone.trans (creation.traces gone.traced (Fixed.usable (by intro key g mem; simp at mem)))
  | @replaced constant name value type v c₁ role _ creation =>
      have gone := traced.released (r := r) leaf role
      have made := gone.trans (creation.traces gone.traced (Fixed.usable (by intro key g mem; simp at mem)))
      have there : c₁.assembly.leaf? x = some { l with hold := .nothing } := by
        rw [creation.assembly]
        exact empty
      cases creation
      refine made.trans (made.traced.setLeaf there (by rintro _ ⟨⟩) (fun g held => .inl held) fun n g hr own => ?_)
      cases own
      exact ⟨x, n, by rw [← hr]; exact List.mem_cons_self⟩

theorem Binds.traces {x : PartId} {b : Binding} (binds : Binds r x b c c') (traced : Traced c) (acc : Accounted [] c)
    (known : ∀ g, b = .node g → g ∈ MaterialGraph.created c.journal) (backed : ∀ g, b = .node g → Backed c g) :
    Traces c c' := by
  induction binds with
  | refl => exact traced.refl
  | remark _ margin text ih => exact ih.trans (ih.traced.push (.remark margin text))
  | leaf before _ leaf binds ih =>
      exact ih.trans (binds.traces ih.traced (acc.binds known before) leaf fun g hb => ih.backed (backed g hb))

/-! ## Steps and runs -/

/-- Every step keeps track. -/
theorem Step.traces (h : Step r c c') (traced : Traced c) (acc : Accounted [] c) : Traces c c' := by
  cases h with
  | message message => exact traced.push message
  | mark mark => cases mark <;> exact traced.edit fun _ => rfl
  | note note =>
      cases note with
      | child => exact traced.edit fun _ => leaf?_child _ _
      | socket => exact traced.edit fun _ => leaf?_socket _ _
      | edge => exact traced.edit fun _ => leaf?_edge _
  | share shares => cases shares <;> exact traced.edit fun _ => rfl
  | composite g => exact traced.edit fun _ => leaf?_add_composite _
  | forward role => exact traced.addLeaf rfl nofun
  | refused held creation =>
      exact creation.traces traced fun key g mem => let ⟨_, holds⟩ := held key g mem; traced.usable acc holds
  | create native held creation =>
      have made := creation.traces traced fun key g mem =>
        let ⟨_, holds⟩ := held key g mem; traced.usable acc holds
      cases creation
      refine made.trans (made.traced.addLeaf rfl ?_)
      rintro name g rfl
      cases native
  | literal binds => exact binds.traces traced acc nofun nofun
  | passes passes =>
      cases passes with
      | nothing => exact traced.refl
      | handle _ holds binds =>
          refine binds.traces traced acc (fun g hb => ?_) fun g hb => ?_
          · cases hb
            exact acc.held holds
          · cases hb
            exact traced.held holds

theorem Steps.traces (h : Steps r c c') (traced : Traced c) (acc : Accounted [] c) : Traces c c' := by
  induction h with
  | refl => exact traced.refl
  | tail before step ih => exact ih.trans (step.traces ih.traced (Steps.accounted before acc))

theorem traced_start (s : σ) : Traced ({ system := s } : Context σ) where
  held := nofun
  bound _ he := absurd he List.not_mem_nil
  constant := nofun
  sourced := trivial

/-! ## Loads -/

abbrev Unbinding : Context σ → Context σ → Prop := Only fun e => e.source? = none

theorem Unbinding.sourced (h : Unbinding c c') (sourced : Sourced c.journal) : Sourced c'.journal := by
  obtain ⟨new, journal, none⟩ := h
  rw [journal]
  clear journal
  induction new with
  | nil => exact sourced
  | cons e new ih =>
      refine ⟨fun g hg => ?_, ih fun x hx => none x (List.mem_cons_of_mem _ hx)⟩
      rw [none e List.mem_cons_self] at hg
      cases hg

theorem unbinding_released (x : PartId) (l : Leaf) : Unbinding c (Build.released r x l c) := by
  unfold Build.released
  cases l.hold.owned? with
  | none => exact .event rfl rfl
  | some h => exact .trans (.event rfl rfl) (.event rfl rfl)

theorem unbinding_releasedAll (xs : List PartId) (c : Context σ) : Unbinding c (releasedAll r xs c) :=
  releasedAll_induction (fun _ before => before.trans (unbinding_released _ _)) xs (.refl c)

/-- A load binds no handle that is not alive, displaced ones apart. -/
theorem Loads.sourced {s : σ} {result : LoadResult} (loads : Loads W { system := s } result c) :
    Sourced c.journal := by
  have start := accounted_start s
  cases loads with
  | nothing => exact ⟨nofun, trivial⟩
  | unresolved works =>
      have traces := works.steps.traces (traced_start s) start
      exact (unbinding_releasedAll _ _).sourced (traces.traced.push (.warning _)).traced.sourced
  | @handOver harvest c₁ e works _ message =>
      have traces := works.steps.traces (traced_start s) start
      have sourced := (unbinding_releasedAll (r := W.renderer) (LoadResult.left c₁.assembly harvest.parts) c₁).sourced
        traces.traced.sourced
      cases message <;> exact ⟨nofun, sourced⟩

/-- What a calm load keeps track of, unless it hands over nothing. -/
theorem Loads.traced {s : σ} {result : LoadResult} (loads : Loads W { system := s } result c)
    (calm : Calm c.journal) (some : result.nodes ≠ []) : Traced c := by
  cases loads with
  | nothing => exact absurd rfl some
  | unresolved => exact absurd rfl some
  | @handOver harvest c₁ e works _ message =>
      have quiet : Calm (releasedAll W.renderer (LoadResult.left c₁.assembly harvest.parts) c₁).journal := calm.2
      have kept := works.releasedAll_left (r := W.renderer) (quiet.of_suffix (moves_releasedAll _ _).suffix)
      rw [kept]
      exact ((works.steps.traces (traced_start s) (accounted_start s)).traced.push message).traced

end Build

/-! ## The recording renderer -/

/-- What is bound to a new node has been bound by an event. -/
theorem History.bound {s t : Recorder} {n : RecordedNode} {key : InputKey} (hist : History Recorder.renderer s j t)
    (new : s.node? h = none) (hn : t.node? h = some n) (hb : n.bound key = some (.node g)) :
    ∃ e ∈ j, e.source? = some g := by
  induction hist generalizing n with
  | start =>
      rw [new] at hn
      cases hn
  | @create j t before type ih =>
      change (Recorder.create type t).2.node? h = some n at hn
      have older : t.node? h = some n → ∃ e ∈ Event.created type (Recorder.renderer.create type t).1 :: j,
          e.source? = some g := fun hn =>
        let ⟨e, he, source⟩ := ih hn hb
        ⟨e, List.mem_cons_of_mem _ he, source⟩
      cases hr : (Recorder.create type t).1 with
      | error e =>
          rw [Recorder.create_error hr] at hn
          exact older hn
      | ok k =>
          rw [Recorder.node?_create hr] at hn
          split at hn
          · cases hn
            cases hb
          · exact older hn
  | @act j t before a ih =>
      rcases Recorder.bound_act hn hb with ⟨rfl, -, -⟩ | ⟨m, hm, hb, -⟩
      · exact ⟨_, List.mem_cons_self, rfl⟩
      · obtain ⟨e, he, source⟩ := ih hm hb
        exact ⟨e, List.mem_cons_of_mem _ he, source⟩
  | other _ _ ih =>
      obtain ⟨e, he, source⟩ := ih hn hb
      exact ⟨e, List.mem_cons_of_mem _ he, source⟩

/-- What a load has deleted it does not act on again, and it binds nothing that it has deleted, unless that has been the
constant of a displacement. In the end each node that is handed over is live, and what is bound to it is handed over
too, or has been deleted by the load; a calm load (see `calm_of_load`) has deleted none of it but constants of
displacements. -/
theorem no_use_after_delete (l : Loader) (d : Document) (options : LoadOptions) (fileExists : String → Bool)
    {s : Recorder} (reachable : s.Reachable) (o : Outcome Recorder)
    (loaded : l.load d options fileExists Recorder.renderer s = some o) :
    (∀ pre e post, o.journal = pre ++ e :: post →
      (∀ h ∈ e.target?, h ∉ deleted pre) ∧ ∀ g ∈ e.source?, g ∈ deleted pre → Displaced pre g) ∧
    ∀ h ∈ o.result.nodes, ∃ n, o.system.node? h = some n ∧ ∀ key g, n.bound key = some (.node g) →
      g ∈ o.result.nodes ∨ g ∈ deleted o.journal ∧ (Calm o.journal.reverse → Displaced o.journal g) := by
  obtain ⟨c, loads, system, journal⟩ := loads_of_load loaded
  have order := loads.accounted.order
  have history : History Recorder.renderer s c.journal c.system := loads.history
  have once : (created c.journal).Nodup := Recorder.fresh s _ _ history
  have reversed : o.journal.reverse = c.journal := by rw [journal, List.reverse_reverse]
  constructor
  · intro pre e post split
    have split : c.journal = post.reverse ++ e :: pre.reverse := by
      rw [← reversed, split]
      simp
    have living : Living (e :: pre.reverse) := Living.of_append (split ▸ loads.accounted.living)
    have sourced : Sourced (e :: pre.reverse) := Sourced.of_append (split ▸ loads.sourced)
    have once : (created pre.reverse).Nodup :=
      once.sublist (List.Sublist.filterMap _
        (split ▸ (List.sublist_cons_self e _).trans (List.sublist_append_right _ _)))
    have gone (g : Handle) : g ∈ deleted pre ↔ g ∈ deleted pre.reverse := by
      rw [deleted, deleted, List.filterMap_reverse, List.mem_reverse]
    refine ⟨fun h target => ?_, fun g source hd => ?_⟩
    · rw [gone]
      exact living.notMem_deleted once target
    · rcases sourced.1 g source with alive | ⟨x, name, mem⟩
      · exact absurd ((gone g).1 hd) (alive.notMem_deleted once)
      · exact ⟨x, name, List.mem_reverse.1 mem⟩
  · intro h hh
    obtain ⟨mine, kept⟩ := (loads.mem_nodes_iff once).1 hh
    have live : (c.system.node? h).isSome := (history.isSome_node? order).2 ⟨.inr mine, kept⟩
    have new : s.node? h = none := reachable.node?_eq_none (history.mem_created.1 mine).1
    obtain ⟨n, hn⟩ := Option.isSome_iff_exists.1 live
    refine ⟨n, system ▸ hn, fun key g hb => ?_⟩
    obtain ⟨e, he, source⟩ := history.bound new hn hb
    have known : g ∈ created c.journal := order.created_of_names he (Event.source_named source)
    rcases List.mem_append.1 (loads.perm_created.symm.subset known) with here | gone
    · exact .inl here
    · refine .inr ⟨?_, fun calm => ?_⟩
      · rw [journal, deleted, List.filterMap_reverse, List.mem_reverse]
        exact gone
      · rw [reversed] at calm
        rcases (loads.traced calm (List.ne_nil_of_mem hh)).bound e he g source with own | ⟨x, name, mem⟩
        · exact absurd gone ((loads.mem_nodes_iff once).1 (loads.perm_owned.subset own)).2
        · exact ⟨x, name, by rw [journal]; exact List.mem_reverse.2 mem⟩

/-- In `replacedConstant` the sum is bound to the constant that is replaced, and stays bound to it. -/
theorem no_use_after_delete_replacedConstant :
    ∃ o n, Loader.load {} replacedConstant {} (fun _ => false) Recorder.renderer {} = some o ∧
      o.system.node? ⟨0⟩ = some n ∧ n.bound .color0 = some (.node ⟨1⟩) ∧ ⟨1⟩ ∈ deleted o.journal ∧
        Displaced o.journal ⟨1⟩ := by
  have evaluated : (Loader.load {} replacedConstant {} (fun _ => false) Recorder.renderer {}).map
      (fun o => (decide (Calm o.journal.reverse), o.result.nodes,
        (o.system.node? ⟨0⟩).bind fun n => n.bound .color0)) =
      some (true, [⟨2⟩, ⟨0⟩, ⟨3⟩], some (.node ⟨1⟩)) := by decide +kernel
  obtain ⟨o, loaded, same⟩ := Option.map_eq_some_iff.1 evaluated
  obtain ⟨calm, same⟩ := Prod.mk.inj same
  obtain ⟨nodes, bound⟩ := Prod.mk.inj same
  obtain ⟨n, hn, bound⟩ := Option.bind_eq_some_iff.1 bound
  obtain ⟨-, inputs⟩ := no_use_after_delete {} replacedConstant {} (fun _ => false) .start o loaded
  obtain ⟨m, hm, inputs⟩ := inputs ⟨0⟩ (by rw [nodes]; decide)
  cases hn.symm.trans hm
  have gone := (inputs .color0 ⟨1⟩ bound).resolve_left (by rw [nodes]; decide)
  exact ⟨o, n, loaded, hn, bound, gone.1, gone.2 (of_decide_eq_true calm)⟩

/-- So not everything that is bound in the end is handed over. -/
theorem replacedConstant_dangles :
    ∃ o, Loader.load {} replacedConstant {} (fun _ => false) Recorder.renderer {} = some o ∧
      ¬ ∀ h ∈ o.result.nodes, ∀ n, o.system.node? h = some n → ∀ key g, n.bound key = some (.node g) →
        g ∈ o.result.nodes := by
  have evaluated : (Loader.load {} replacedConstant {} (fun _ => false) Recorder.renderer {}).map
      (fun o => (o.result.nodes, (o.system.node? ⟨0⟩).bind fun n => n.bound .color0)) =
      some ([⟨2⟩, ⟨0⟩, ⟨3⟩], some (.node ⟨1⟩)) := by decide +kernel
  obtain ⟨o, loaded, same⟩ := Option.map_eq_some_iff.1 evaluated
  obtain ⟨nodes, bound⟩ := Prod.mk.inj same
  obtain ⟨n, hn, bound⟩ := Option.bind_eq_some_iff.1 bound
  refine ⟨o, loaded, fun all => ?_⟩
  have absent : (⟨1⟩ : Handle) ∉ o.result.nodes := by
    rw [nodes]
    decide
  exact absent (all ⟨0⟩ (by rw [nodes]; decide) n hn .color0 ⟨1⟩ bound)

end MaterialGraph
