import MaterialGraph.Proofs.Build.Steps

/-!
# What a run keeps

* `Routine` : nothing happens to the children of composites.
* `Run.underway_eq` : a run ends with the same composites giving a child as it began with.
* `Run.keeps` : a child that a composite has stays where it is.
* `Run.leavesBusy` : as long as no composite is asked for a child while it is giving one, a composite that is giving a
  child gets no other from the runs that it opens.
* `Run.freeStanding` : what is known of a free-standing graph at the start of a run is so at its end.
-/

namespace MaterialGraph.Build

set_option autoImplicit false

open Assembly Relation

variable {σ : Type} {r : Renderer σ} {W : Env σ} {c c' : Context σ}

/-! ## Journals -/

theorem Run.suffix {ph : Phase} {id : PartId} {s : Nat} (h : Run W ph id s c c') : c.journal <:+ c'.journal :=
  h.steps.moves.suffix

theorem Run.calm {ph : Phase} {id : PartId} {s : Nat} (h : Run W ph id s c c') (calm : Calm c'.journal) :
    Calm c.journal :=
  calm.of_suffix h.suffix

/-! ## What is added to a journal -/

def Only (P : Event → Prop) (c c' : Context σ) : Prop := ∃ new, c'.journal = new ++ c.journal ∧ ∀ e ∈ new, P e

/-- Nothing happens but calls and other states of leaves. -/
abbrev Handiwork : Context σ → Context σ → Prop := Only Event.IsHandiwork

/-- Nothing happens but calls, remarks and other states of leaves. -/
abbrev Silent : Context σ → Context σ → Prop := Only Event.IsSilent

abbrev Leafwork : Context σ → Context σ → Prop := Only Event.IsLeafwork

/-- Nothing happens to the children of composites. -/
abbrev Routine : Context σ → Context σ → Prop := Only Event.IsRoutine

namespace Only

variable {P Q : Event → Prop}

theorem refl (c : Context σ) : Only P c c := ⟨[], rfl, fun _ he => absurd he List.not_mem_nil⟩

theorem trans {c₁ : Context σ} (h₁ : Only P c c₁) (h₂ : Only P c₁ c') : Only P c c' := by
  obtain ⟨new₁, journal₁, only₁⟩ := h₁
  obtain ⟨new₂, journal₂, only₂⟩ := h₂
  refine ⟨new₂ ++ new₁, by rw [journal₂, journal₁, List.append_assoc], fun e he => ?_⟩
  rcases List.mem_append.1 he with he | he
  · exact only₂ e he
  · exact only₁ e he

theorem event {e : Event} (journal : c'.journal = e :: c.journal) (he : P e) : Only P c c' := by
  refine ⟨[e], journal, fun x hx => ?_⟩
  rw [List.mem_singleton.1 hx]
  exact he

theorem push {e : Event} (h : Only P c c') (he : P e) : Only P c (c'.push e) := h.trans (.event rfl he)

theorem edit {e : Edit} (h : Only P c c') (he : P (.edited e)) : Only P c (c'.edit e) := h.trans (.event rfl he)

theorem mono (h : Only P c c') (hPQ : ∀ e, P e → Q e) : Only Q c c' :=
  let ⟨new, journal, only⟩ := h
  ⟨new, journal, fun e he => hPQ e (only e he)⟩

/-- The other events have happened before. -/
theorem old {e : Event} (h : Only P c c') (mem : e ∈ c'.journal) (other : ¬ P e) : e ∈ c.journal := by
  obtain ⟨new, journal, only⟩ := h
  rw [journal, List.mem_append] at mem
  exact mem.resolve_left fun now => other (only e now)

/-- A journal that another event ends has been there before. -/
theorem suffix_of_cons {e : Event} {j : List Event} (h : Only P c c') (here : e :: j <:+ c'.journal) (other : ¬ P e) :
    e :: j <:+ c.journal := by
  obtain ⟨new, journal, only⟩ := h
  rw [journal] at here
  rcases List.suffix_or_suffix_of_suffix here (List.suffix_append new c.journal) with less | more
  · exact less
  · rcases List.suffix_cons_iff.1 more with same | ⟨between, rfl⟩
    · exact same ▸ List.suffix_rfl
    · obtain ⟨later, split⟩ := here
      rw [← List.cons_append, ← List.append_assoc] at split
      have mem : e ∈ new := List.append_cancel_right split ▸ List.mem_append_right _ List.mem_cons_self
      exact (other (only e mem)).elim

/-- What only the other events can change is as it was. -/
theorem foldr_eq {β : Type} {f : Event → β → β} (ignores : ∀ e b, P e → f e b = b) (h : Only P c c') (b : β) :
    c'.journal.foldr f b = c.journal.foldr f b := by
  obtain ⟨new, journal, only⟩ := h
  rw [journal, List.foldr_append]
  generalize c.journal.foldr f b = start
  clear journal
  induction new with
  | nil => rfl
  | cons e new ih =>
      obtain ⟨he, hnew⟩ := List.forall_mem_cons.1 only
      rw [List.foldr_cons, ignores e _ he, ih hnew]

/-- What is read off the other events is as it was. -/
theorem filterMap_eq {β : Type} {f : Event → Option β} (ignores : ∀ e, P e → f e = none) (h : Only P c c') :
    c'.journal.filterMap f = c.journal.filterMap f := by
  obtain ⟨new, journal, only⟩ := h
  have none : new.filterMap f = [] := List.filterMap_eq_nil_iff.2 fun e he => ignores e (only e he)
  rw [journal, List.filterMap_append, none, List.nil_append]

end Only

theorem isSilent_of_isHandiwork {e : Event} (h : e.IsHandiwork) : e.IsSilent := by
  unfold Event.IsHandiwork at h
  split at h
  · trivial
  · trivial
  · trivial
  · exact h.elim

theorem isLeafwork_of_isSilent {e : Event} (h : e.IsSilent) : e.IsLeafwork := by
  unfold Event.IsLeafwork
  split
  case h_4 other _ _ =>
    unfold Event.IsSilent at h
    split at h
    · next silent => cases silent; exact (other _ _ rfl).elim
    · exact h
    · exact h
    · next silent _ => exact (silent _ rfl).elim
  all_goals trivial

theorem isRoutine_of_isLeafwork {e : Event} (h : e.IsLeafwork) : e.IsRoutine := by
  unfold Event.IsRoutine
  split
  · exact h
  · exact h
  · exact h
  · trivial

theorem Handiwork.silent (h : Handiwork c c') : Silent c c' := h.mono fun _ he => isSilent_of_isHandiwork he

theorem Silent.leafwork (h : Silent c c') : Leafwork c c' := h.mono fun _ he => isLeafwork_of_isSilent he

theorem Leafwork.routine (h : Leafwork c c') : Routine c c' := h.mono fun _ he => isRoutine_of_isLeafwork he

theorem Handiwork.acted (a : Action) : Handiwork c (c.acted r a) := .event rfl trivial

theorem Handiwork.created (type : NodeType) : Handiwork c (c.created r type) := .event rfl trivial

theorem Handiwork.leaf (x : PartId) (l : Leaf) : Handiwork c (c.edit (.leaf x l)) := .event rfl trivial

theorem Leafwork.message {e : Event} (message : IsMessage e) : Leafwork c (c.push e) := by
  cases message <;> exact .event rfl trivial

theorem Routine.underway_eq (h : Routine c c') : underway c'.journal = underway c.journal := by
  refine h.foldr_eq (fun e giving routine => ?_) []
  unfold Event.track
  split
  · exact routine.elim
  · exact routine.elim
  · rfl

theorem Acts.handiwork {P : Action → Prop} (h : Acts r P c c') : Handiwork c c' := by
  induction h with
  | refl => exact .refl _
  | act _ _ ih => exact ih.trans (Handiwork.acted _)

theorem CreatesLeaf.handiwork {type : NodeType} {role : Role} {settings : List (InputKey × Bound)} {name : Option String}
    {res : Result Leaf} (h : CreatesLeaf r type role settings name c res c') : Handiwork c c' := by
  cases h with
  | refused => exact .created _
  | done _ setup => exact (Handiwork.created _).trans setup.settings.handiwork
  | undone _ setup => exact ((Handiwork.created _).trans setup.settings.handiwork).trans (Handiwork.acted _)

theorem CreatesLeaf.silent {type : NodeType} {role : Role} {settings : List (InputKey × Bound)} {name : Option String}
    {res : Result Leaf} (h : CreatesLeaf r type role settings name c res c') : Silent c c' :=
  h.handiwork.silent

theorem CreatesLeaf.leafwork {type : NodeType} {role : Role} {settings : List (InputKey × Bound)}
    {name : Option String} {res : Result Leaf}
    (h : CreatesLeaf r type role settings name c res c') : Leafwork c c' :=
  h.silent.leafwork

theorem handiwork_released (x : PartId) (l : Leaf) : Handiwork c (released r x l c) := by
  rw [released]
  cases l.hold.owned? with
  | none => exact .leaf x _
  | some h => exact (Handiwork.leaf x _).trans (Handiwork.acted _)

theorem silent_released (x : PartId) (l : Leaf) : Silent c (released r x l c) := (handiwork_released x l).silent

theorem BindsLeaf.handiwork {x : PartId} {l : Leaf} {b : Binding} {res : Result Unit} (h : BindsLeaf r x l b c res c') :
    Handiwork c c' := by
  have gone : Handiwork c (released r x l c) := handiwork_released x l
  cases h with
  | unchanged => exact .refl _
  | called => exact .acted _
  | params | forwarded => exact .leaf x _
  | redirected => exact gone.trans (Handiwork.leaf x _)
  | emptied => exact gone
  | lost _ _ creation => exact gone.trans creation.handiwork
  | replaced _ _ creation => exact (gone.trans creation.handiwork).trans (Handiwork.leaf x _)

theorem BindsLeaf.silent {x : PartId} {l : Leaf} {b : Binding} {res : Result Unit} (h : BindsLeaf r x l b c res c') :
    Silent c c' :=
  h.handiwork.silent

theorem Binds.silent {x : PartId} {b : Binding} (h : Binds r x b c c') : Silent c c' := by
  induction h with
  | refl => exact .refl _
  | remark _ _ _ ih => exact ih.trans (.event rfl trivial)
  | leaf _ _ _ binds ih => exact ih.trans binds.silent

theorem Binds.leafwork {x : PartId} {b : Binding} (h : Binds r x b c c') : Leafwork c c' := h.silent.leafwork

theorem Connects.leafwork {x y : PartId} {success : Bool} (h : Connects r x y success c c') : Leafwork c c' := by
  obtain @⟨_, output, i, passes⟩ := h
  have marked : Leafwork c (c.edit (.began (.connection x output y i))) := .event rfl trivial
  refine Only.trans (marked.trans ?_) (.event rfl trivial)
  cases passes with
  | nothing => exact .refl _
  | handle _ _ binds => exact binds.leafwork

theorem MakesLeaf.leafwork {n : Node} {l : Leaf} (h : MakesLeaf r n c l c') : Leafwork c c' := by
  cases h with
  | forward => exact .refl _
  | create _ creation => exact creation.leafwork

theorem Starts.routine {g : NodeGraph} {x : PartId} (h : Starts g c x c') : Routine c c' := by
  cases h with
  | first =>
      have added : Routine c (c.edit (.add (.composite { graph := .named g }))) := .event rfl trivial
      exact added.trans (.event rfl trivial)
  | again => exact .event rfl trivial

theorem Barren.underway_eq (h : Barren r c c') : underway c'.journal = underway c.journal := by
  induction h with
  | refl => rfl
  | trans _ _ ih₁ ih₂ => exact ih₂.trans ih₁
  | message c message => exact (Leafwork.message message).routine.underway_eq
  | task _ ih => exact congrArg List.tail ih
  | failed _ creation => exact creation.leafwork.routine.underway_eq
  | composite => rfl

/-- A run ends every task that it begins. -/
theorem Run.underway_eq {ph : Phase} {id : PartId} {s : Nat} (h : Run W ph id s c c') :
    underway c'.journal = underway c.journal := by
  induction h with
  | refl => rfl
  | trans _ _ ih₁ ih₂ => exact ih₂.trans ih₁
  | message c message => exact (Leafwork.message message).routine.underway_eq
  | barren barren => exact barren.underway_eq
  | task _ _ ih => exact congrArg List.tail ih
  | leafChild _ _ _ makes => exact makes.leafwork.routine.underway_eq
  | compositeChild _ _ _ _ _ _ ih => exact ih
  | socket => rfl
  | literal _ binds => exact binds.leafwork.routine.underway_eq
  | inside _ _ _ _ connects => exact connects.leafwork.routine.underway_eq
  | insideFailed _ _ _ _ connects => exact connects.leafwork.routine.underway_eq
  | geometry _ creation => exact creation.leafwork.routine.underway_eq
  | top => rfl
  | viaTop _ _ _ ih => exact congrArg List.tail ih
  | viaGraph starts _ ih => exact ih.trans starts.routine.underway_eq
  | outside _ _ connects => exact connects.leafwork.routine.underway_eq

/-! ## Children -/

theorem Rebinds.child? {S : PartId → Prop} {a a' : Assembly} (h : Rebinds S a a') (id : PartId) (name : String) :
    a'.child? id name = a.child? id name :=
  child?_congr (h.composite id) name

theorem MakesLeaf.child? {n : Node} {l : Leaf} (h : MakesLeaf r n c l c') (id : PartId) (name : String) :
    (c'.edit (.add (.leaf l))).assembly.child? id name = c.assembly.child? id name := by
  rw [Context.edit_assembly, h.assembly, child?_add_leaf]

theorem Starts.child? {g : NodeGraph} {x : PartId} (h : Starts g c x c') (id : PartId) (name : String) :
    c'.assembly.child? id name = c.assembly.child? id name := by
  cases h with
  | first => exact child?_add_composite _ name
  | again => rfl

theorem Barren.child? (h : Barren r c c') (id : PartId) (name : String) :
    c'.assembly.child? id name = c.assembly.child? id name := by
  induction h with
  | refl => rfl
  | trans _ _ ih₁ ih₂ => exact ih₂.trans ih₁
  | message => rfl
  | task _ ih => exact ih
  | failed _ creation => rw [creation.assembly]
  | composite c g => exact child?_add_composite g name

theorem ne_of_absent {a : Assembly} {id j : PartId} {k : Composite} {name n : String} {x : PartId}
    (composite : a.composite? id = some k) (absent : k.child? n = none) (hx : a.child? j name = some x) :
    id ≠ j ∨ n ≠ name := by
  rcases Decidable.em (id = j) with rfl | hne
  · right
    rintro rfl
    rw [child?_of_composite? composite, absent] at hx
    cases hx
  · exact .inl hne

/-- A run leaves the children that there are. A child that is built twice is missing when its construction begins. -/
theorem Run.keeps {ph : Phase} {id : PartId} {s : Nat} (h : Run W ph id s c c') {j x : PartId} {name : String}
    (hx : c.assembly.child? j name = some x) : c'.assembly.child? j name = some x := by
  induction h with
  | refl => exact hx
  | trans _ _ ih₁ ih₂ => exact ih₂ (ih₁ hx)
  | message => exact hx
  | barren barren => exact (barren.child? j name).trans hx
  | task _ _ ih => exact ih hx
  | leafChild composite node absent makes =>
      rw [Context.edit_assembly, child?_child_of_ne (ne_of_absent composite absent hx), makes.child?]
      exact hx
  | @compositeChild id s c c₁ n k g composite node absent recipe implementation inner ih =>
      rw [Context.edit_assembly, child?_child_of_ne (ne_of_absent composite absent hx)]
      exact ih ((child?_add_composite _ name).trans hx)
  | socket => exact (child?_socket _ _ name).trans hx
  | literal _ binds => exact (binds.rebinds.child? j name).trans hx
  | inside _ _ _ _ connects => exact (child?_edge _ name).trans ((connects.rebinds.child? j name).trans hx)
  | insideFailed _ _ _ _ connects => exact (connects.rebinds.child? j name).trans hx
  | geometry _ creation =>
      rw [Context.edit_assembly, Context.edit_assembly]
      refine (child?_add_leaf _ name).trans ?_
      rw [creation.assembly]
      exact hx
  | top => exact (child?_add_composite _ name).trans hx
  | viaTop _ _ _ ih => exact ih hx
  | viaGraph starts _ ih => exact ih ((starts.child? j name).trans hx)
  | outside _ _ connects => exact (connects.rebinds.child? j name).trans hx

/-- A run gives no child to a composite that is giving one already, unless it is a run in that composite. -/
def LeavesBusy (ph : Phase) (id : PartId) (c c' : Context σ) : Prop :=
  ∀ j, j ∈ underway c.journal → (ph = .giving → j ≠ id) → ∀ name,
    c'.assembly.child? j name = c.assembly.child? j name

theorem LeavesBusy.of_eq {ph : Phase} {id : PartId}
    (h : ∀ j name, c'.assembly.child? j name = c.assembly.child? j name) : LeavesBusy ph id c c' :=
  fun j _ _ name => h j name

/-- A task asked of a composite that is giving no child gives nothing to those that are. -/
theorem LeavesBusy.task {ph : Phase} {id t : PartId} {name : String} {success : Bool} {c₁ : Context σ}
    (idle : t ∉ underway c.journal) (inner : LeavesBusy .giving t (c.edit (.began (.child t name))) c₁) :
    LeavesBusy ph id c (c₁.edit (.ended (.child t name) success)) :=
  fun j hj _ n => inner j (List.mem_cons_of_mem _ hj) (fun _ he => idle (he ▸ hj)) n

/-- In a calm journal, no composite gets a child behind the back of its own run. -/
theorem Run.leavesBusy {ph : Phase} {id : PartId} {s : Nat} (h : Run W ph id s c c') (calm : Calm c'.journal) :
    LeavesBusy ph id c c' := by
  induction h with
  | refl => exact .of_eq fun _ _ => rfl
  | trans first second ih₁ ih₂ =>
      intro j hj hne name
      refine (ih₂ calm j ?_ hne name).trans (ih₁ (second.calm calm) j hj hne name)
      rw [first.underway_eq]
      exact hj
  | message => exact .of_eq fun _ _ => rfl
  | barren barren => exact .of_eq barren.child?
  | task inner _ ih => exact .task ((calm.2.of_suffix inner.suffix).1 _ rfl) (ih calm.2)
  | @leafChild id s c c₁ n k l composite node absent makes =>
      intro j _ hne name
      rw [Context.edit_assembly, child?_child_of_ne (.inl (hne rfl).symm), makes.child?]
  | @compositeChild id s c c₁ n k g composite node absent recipe implementation inner ih =>
      intro j hj hne name
      rw [Context.edit_assembly, child?_child_of_ne (.inl (hne rfl).symm)]
      exact (ih calm.2 j hj nofun name).trans (child?_add_composite _ name)
  | socket => exact .of_eq fun _ name => child?_socket _ _ name
  | literal _ binds => exact .of_eq binds.rebinds.child?
  | inside _ _ _ _ connects => exact .of_eq fun j name => (child?_edge _ name).trans (connects.rebinds.child? j name)
  | insideFailed _ _ _ _ connects => exact .of_eq connects.rebinds.child?
  | geometry _ creation =>
      refine .of_eq fun j name => ?_
      rw [Context.edit_assembly, ← creation.assembly]
      exact child?_add_leaf _ name
  | top => exact .of_eq fun _ name => child?_add_composite _ name
  | viaTop _ inner _ ih => exact .task ((calm.2.of_suffix inner.suffix).1 _ rfl) (ih calm.2)
  | viaGraph starts inner ih =>
      intro j hj _ name
      refine (ih calm.2 j ?_ nofun name).trans (starts.child? j name)
      rw [starts.routine.underway_eq]
      exact hj
  | outside _ _ connects => exact .of_eq connects.rebinds.child?

/-! ## What a consumer stays -/

/-- What stands below a part stays there. -/
theorem Run.below_kept {ph : Phase} {id x y : PartId} {s : Nat} (h : Run W ph id s c c')
    (hb : Below c.assembly x y) : Below c'.assembly x y :=
  hb.mono fun _ _ _ hz => h.keeps hz

theorem Takes.run {ph ph' : Phase} {id j x : PartId} {s s' : Nat} (ht : Takes ph id s c x) (h : Run W ph' j s' c c') :
    Takes ph id s c' x := by
  cases ph with
  | asking => exact ht
  | giving =>
      obtain ⟨⟨name, child⟩, hs⟩ := ht
      exact ⟨⟨name, h.keeps child⟩, hs⟩

theorem Given.run {ph : Phase} {id j x : PartId} {s s' : Nat} {name : String} (hg : Given j s c name x)
    (h : Run W ph id s' c c') : Given j s c' name x :=
  ⟨h.keeps hg.1, hg.2⟩

theorem Given.takes {id x : PartId} {s : Nat} {name : String} (hg : Given id s c name x) : Takes .giving id s c x :=
  ⟨⟨name, hg.1⟩, hg.2⟩

theorem Given.mono {id x : PartId} {s s' : Nat} {name : String} (hg : Given id s c name x) (hs : s' ≤ s) :
    Given id s' c name x :=
  ⟨hg.1, Nat.le_trans hs hg.2⟩

/-! ## Free-standing graphs -/

theorem Barren.freeStanding (h : Barren r c c') : c'.assembly.freeStanding = c.assembly.freeStanding := by
  induction h with
  | refl => rfl
  | trans _ _ ih₁ ih₂ => exact ih₂.trans ih₁
  | message => rfl
  | task _ ih => exact ih
  | failed _ creation => rw [creation.assembly]
  | composite => rfl

theorem getElem?_insert_of_ne {α : Type} {m : NameMap α} {name n : String} {v : α} (h : name ≠ n) :
    (m.insert name v)[n]? = m[n]? := by
  rw [Std.TreeMap.getElem?_insert, if_neg]
  rw [Std.LawfulEqCmp.compare_eq_iff_eq]
  exact h

/-- What is known of a free-standing graph is so again at the end of a run. -/
theorem Run.freeStanding {ph : Phase} {id : PartId} {s : Nat} {name : String} {state : Construction}
    (h : Run W ph id s c c') (known : c.assembly.freeStanding[name]? = some state) :
    c'.assembly.freeStanding[name]? = some state := by
  induction h generalizing state with
  | refl => exact known
  | trans _ _ ih₁ ih₂ => exact ih₂ (ih₁ known)
  | message => exact known
  | barren barren =>
      rw [barren.freeStanding]
      exact known
  | task _ _ ih => exact ih known
  | leafChild _ _ _ makes =>
      rw [← makes.assembly] at known
      exact known
  | compositeChild _ _ _ _ _ _ ih => exact ih known
  | socket => exact known
  | literal _ binds =>
      rw [binds.rebinds.freeStanding]
      exact known
  | inside _ _ _ _ connects =>
      rw [← connects.rebinds.freeStanding] at known
      exact known
  | insideFailed _ _ _ _ connects =>
      rw [connects.rebinds.freeStanding]
      exact known
  | geometry _ creation =>
      rw [← creation.assembly] at known
      exact known
  | top => exact known
  | viaTop _ _ _ ih => exact ih known
  | @viaGraph ph id x s c c₁ c₂ g starts inner ih =>
      change (c₂.assembly.freeStanding.insert g.name (.built x))[name]? = _
      rcases Decidable.em (g.name = name) with rfl | hne
      · rw [Std.TreeMap.getElem?_insert_self]
        cases starts with
        | first absent =>
            rw [absent] at known
            cases known
        | again built => rw [← known, built]
      · rw [getElem?_insert_of_ne hne]
        refine ih ?_
        cases starts with
        | first =>
            change (c.assembly.freeStanding.insert g.name _)[name]? = _
            rw [getElem?_insert_of_ne hne]
            exact known
        | again =>
            change (c.assembly.freeStanding.insert g.name _)[name]? = _
            rw [getElem?_insert_of_ne hne]
            exact known
  | outside _ _ connects =>
      rw [connects.rebinds.freeStanding]
      exact known

end MaterialGraph.Build
