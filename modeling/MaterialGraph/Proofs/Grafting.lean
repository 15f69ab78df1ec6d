import MaterialGraph.Proofs.Governing
import MaterialGraph.Proofs.Wiring

/-!
# Where children are added

While a composite is asked for children, children are added to it and to composites that have not been noted as
children themselves. So what stands behind the outputs of a child is all there as soon as the child is.

* `Grafts` : children are added to one composite only, or to what is no child yet. Runs do so (`Run.grafts`).
* `Grafts.child?_eq` : what has been noted as a child keeps its children.
* `Ends` : an output of a part leads to a leaf.
* `Grafts.ends` : it did so before, if the part was noted as a child before.
-/

namespace MaterialGraph

set_option autoImplicit false

open Build Assembly

variable {σ : Type} {W : Env σ} {c c₁ c' : Context σ} {id x y z : PartId} {name : String} {output : Option String}
  {j : List Event}

/-- From one context to another, children are added to a composite, and else only to what has not been noted as a child
by then. -/
def Grafts (id : PartId) (c c' : Context σ) : Prop :=
  ∀ later z name x earlier, c'.journal = later ++ .edited (.child z name x) :: earlier → c.journal <:+ earlier →
    z = id ∨ z ∉ adopted earlier

namespace Grafts

theorem of_only (only : Only (fun e => e.noted? = none) c c') : Grafts id c c' := by
  intro later z name x earlier split above
  have here : .edited (.child z name x) :: earlier <:+ c.journal :=
    only.suffix_of_cons (split ▸ List.suffix_append _ _) nofun
  -- a journal would be longer than itself
  exact absurd (here.trans above).length_le (Nat.not_succ_le_self _)

theorem trans (h₁ : Grafts id c c₁) (h₂ : Grafts id c₁ c') (later : c₁.journal <:+ c'.journal) : Grafts id c c' := by
  intro since z name x earlier split above
  have here : .edited (.child z name x) :: earlier <:+ c'.journal := split ▸ List.suffix_append _ _
  rcases List.suffix_or_suffix_of_suffix here later with before | after
  · obtain ⟨between, split'⟩ := before
    exact h₁ between z name x earlier split'.symm above
  · rcases List.suffix_cons_iff.1 after with same | after
    · exact h₁ [] z name x earlier same above
    · exact h₂ since z name x earlier split after

theorem edit {e : Edit} (h : Grafts id c c₁) (quiet : (Event.edited e).noted? = none) : Grafts id c (c₁.edit e) :=
  h.trans (.of_only (.event rfl quiet)) (List.suffix_cons _ _)

/-- A child is added to the composite. -/
theorem note (h : Grafts id c c₁) (name : String) (x : PartId) : Grafts id c (c₁.edit (.child id name x)) := by
  intro later z n y earlier split above
  cases later with
  | nil =>
      obtain ⟨same, -⟩ := List.cons.inj split
      cases same
      exact .inl rfl
  | cons e later => exact h later z n y earlier (List.cons.inj split).2 above

/-- The composite is no child itself. -/
theorem elsewhere (h : Grafts z c c') (alone : Alone c' z) : Grafts id c c' := by
  intro later u name x earlier split above
  rcases h later u name x earlier split above with rfl | fresh
  · refine .inr fun mem => alone.2 (adopted_of_suffix ?_ mem)
    rw [split]
    exact (List.suffix_cons _ _).trans (List.suffix_append _ _)
  · exact .inr fresh

theorem routine (routine : Routine c c') : Grafts id c c' := .of_only (routine.mono fun _ he => he.noted?)

theorem leafwork (leafwork : Leafwork c c') : Grafts id c c' := .routine leafwork.routine

end Grafts

theorem Event.IsPlain.noted? {e : Event} (h : e.IsPlain) : e.noted? = none := by
  unfold Event.noted?
  split
  · exact h.elim
  · rfl

theorem Build.Run.grafts {ph : Phase} {n : Nat} (run : Run W ph id n c c') (orderly : Orderly c) : Grafts id c c' := by
  induction run with
  | refl => exact .routine (.refl _)
  | trans first second ih₁ ih₂ => exact (ih₁ orderly).trans (ih₂ (first.grows orderly).orderly) second.suffix
  | message _ message => exact .leafwork (.message message)
  | barren barren => exact .of_only ((plain_of_barren barren).mono fun _ he => he.noted?)
  | @task id _ c c₁ name _ inner _ ih =>
      have begun := (Grows.mark orderly (.began (.child id name)) 0).orderly
      exact .edit ((Grafts.of_only (.event rfl rfl)).trans (ih begun) inner.suffix) rfl
  | leafChild _ _ _ makes => exact .note (.edit (.leafwork makes.leafwork) rfl) _ _
  | @compositeChild id _ c c₁ _ _ g _ _ _ _ _ inner ih =>
      -- the new composite is not noted before it is complete
      have alone := alone_added orderly (.named g)
      have begun := (Grows.addComposite orderly (.named g) 0).orderly
      have built : Grafts id _ c₁ := (ih begun).elsewhere (inner.alone begun alone)
      exact .note ((Grafts.of_only (.event rfl rfl)).trans built inner.suffix) _ _
  | socket => exact .edit (.routine (.refl _)) rfl
  | literal _ binds => exact .leafwork binds.leafwork
  | inside _ _ _ _ connects => exact .edit (.leafwork connects.leafwork) rfl
  | insideFailed _ _ _ _ connects => exact .leafwork connects.leafwork
  | geometry _ creation => exact .edit (.edit (.leafwork creation.leafwork) rfl) rfl
  | top => exact .edit (.edit (.routine (.refl _)) rfl) rfl
  | @viaTop _ id t _ c c₁ name _ top inner _ ih =>
      have begun := (Grows.mark orderly (.began (.child t name)) 0).orderly
      have shared : t ∈ sharing c.journal := orderly.sharing_of_mem_shared (mem_shared.2 (.inl top))
      have alone : Alone (c.edit (.began (.child t name))) t := alone_of_sharing begun shared
      have built : Grafts id _ c₁ := (ih begun).elsewhere (inner.alone begun alone)
      exact .edit ((Grafts.of_only (.event rfl rfl)).trans built inner.suffix) rfl
  | @viaGraph _ id _ _ _ _ _ _ starts inner ih =>
      obtain ⟨grown, shared⟩ := starts.grows orderly
      have alone := alone_of_sharing grown.orderly shared
      have built : Grafts id _ _ := (ih grown.orderly).elsewhere (inner.alone grown.orderly alone)
      exact .edit ((Grafts.routine starts.routine).trans built inner.suffix) rfl
  | outside _ _ connects => exact .leafwork connects.leafwork

/-- What has been noted as a child keeps its children. -/
theorem Grafts.child?_eq (grafts : Grafts id c c') (orderly : Orderly c') (since : c.journal <:+ j)
    (upto : j <:+ c'.journal) (old : x ∈ adopted j) (other : x ≠ id) (name : String) :
    c'.assembly.child? x name = (replay j.reverse).child? x name := by
  obtain ⟨later, journal⟩ := upto
  have fits := orderly.faithful.fits
  rw [← orderly.faithful.assembly, ← journal]
  rw [← journal] at fits
  refine child?_replay later j fits fun mem => ?_
  obtain ⟨e, here, noted⟩ := List.mem_filterMap.1 mem
  obtain ⟨after, before, rfl⟩ := List.append_of_mem here
  cases e with
  | edited e =>
      cases e with
      | child z name' y =>
          cases noted
          have split : c'.journal = after ++ .edited (.child x name y) :: (before ++ j) := by
            rw [← journal]
            simp
          rcases grafts after x name y _ split (since.trans (List.suffix_append _ _)) with same | fresh
          · exact other same
          · exact fresh (mem_adopted_append before old)
      | _ => cases noted
  | _ => cases noted

/-! ## Where outputs lead -/

namespace Assembly

variable {a : Assembly} {h : Handle}

/-- An output of a part leads to a leaf: the part itself, or that to which the output of a child leads. -/
inductive Ends (a : Assembly) (y : PartId) : PartId → Option String → Prop
  | leaf {output : Option String} {l : Leaf} (leaf : a.leaf? y = some l) : Ends a y y output
  | child {x z : PartId} {k : Composite} {output next : Option String} (composite : a.composite? x = some k)
      (found : behind k output = .ok (z, next)) (rest : Ends a y z next) : Ends a y x output

theorem Ends.leaf? (ends : a.Ends y x output) : ∃ l, a.leaf? y = some l := by
  induction ends with
  | leaf leaf => exact ⟨_, leaf⟩
  | child _ _ _ ih => exact ih

theorem Ends.isChild (ends : a.Ends y x output) (child : a.IsChild x) : a.IsChild y := by
  induction ends with
  | leaf => exact child
  | child composite found _ ih => exact ih ⟨_, child?_of_behind composite found⟩

/-- The node behind an output is that of the leaf to which the output leads. -/
theorem exists_ends {fuel : Nat} (handle : a.outputHandle? fuel x output = some (.ok h)) :
    ∃ y l, a.Ends y x output ∧ a.leaf? y = some l ∧ l.hold.handle? = some h := by
  induction fuel generalizing x output with
  | zero => cases handle
  | succ fuel ih =>
      have handle' := handle
      unfold outputHandle? at handle
      split at handle
      · cases handle
      · next l part =>
        have leaf := leaf?_eq_some.2 part
        have holds : (a.leaf? x).bind (·.hold.handle?) = some h := holds_of_leaf leaf handle'
        rw [leaf] at holds
        exact ⟨x, l, .leaf leaf, leaf, holds⟩
      · next k part =>
        split at handle
        · cases handle
        · next z next found =>
          obtain ⟨y, l, ends, rest⟩ := ih handle
          exact ⟨y, l, .child (composite?_eq_some.2 part) found ends, rest⟩

theorem Ends.outputHandle? {fuel : Nat} {res : Except LoadError Handle} {l : Leaf} (ends : a.Ends y x output)
    (leaf : a.leaf? y = some l) (handle : a.outputHandle? fuel x output = some res) : res = leafHandle l := by
  induction ends generalizing fuel with
  | leaf =>
      cases fuel with
      | zero => cases handle
      | succ fuel =>
          rw [Assembly.outputHandle?, leaf?_eq_some.1 leaf] at handle
          exact (Option.some.inj handle).symm
  | child composite found _ ih =>
      cases fuel with
      | zero => cases handle
      | succ fuel =>
          rw [Assembly.outputHandle?, composite?_eq_some.1 composite] at handle
          dsimp only at handle
          rw [found] at handle
          exact ih handle

/-- The walk down from a part finds the node of the leaf. -/
theorem Ends.found {l : Leaf} (ends : a.Ends y x output) (descends : Descends a) (leaf : a.leaf? y = some l)
    (holds : l.hold.handle? = some h) : a.outputHandle? (a.size + 1) x output = some (.ok h) := by
  obtain ⟨res, found⟩ := Option.isSome_iff_exists.1
    (@isSome_outputHandle? _ descends _ x output (Nat.lt_succ_of_le (Nat.sub_le _ _)))
  have same := ends.outputHandle? leaf found
  rw [leafHandle, holds] at same
  rw [found, same]

theorem leaf_or_composite (there : x < a.size) : (∃ l, a.leaf? x = some l) ∨ ∃ k, a.composite? x = some k := by
  cases part : a.part? x with
  | none => exact absurd there (Nat.not_lt.2 (part?_eq_none.1 part))
  | some q =>
      cases q with
      | leaf l => exact .inl ⟨l, leaf?_eq_some.2 part⟩
      | composite k => exact .inr ⟨k, composite?_eq_some.2 part⟩

theorem behind_congr {k k' : Composite} (graph : k'.graph = k.graph) (children : ∀ name, k'.child? name = k.child? name)
    (output : Option String) : behind k' output = behind k output := by
  have same : k'.child? = k.child? := funext children
  unfold behind
  rw [graph, same]

end Assembly

/-- What a child leads to at the end it has led to since it was noted. -/
theorem Grafts.ends {r : Renderer σ} {c₀ : Context σ} (grafts : Grafts id c c') (orderly : Orderly c')
    (orderly₀ : Orderly c₀) (since : c.journal <:+ c₀.journal) (steps : Steps r c₀ c')
    (ends : c'.assembly.Ends y x output) (old : x ∈ adopted c₀.journal) (above : id < x) :
    c₀.assembly.Ends y x output := by
  have more := steps.extends
  induction ends with
  | leaf leaf =>
      rcases leaf_or_composite (orderly₀.lt_of_adopted old) with ⟨l, there⟩ | ⟨k, there⟩
      · exact .leaf there
      · obtain ⟨k', composite, -⟩ := more.composite there
        rw [leaf?_eq_none_of_composite? composite] at leaf
        cases leaf
  | @child x z k output next composite found _ ih =>
      rcases leaf_or_composite (orderly₀.lt_of_adopted old) with ⟨l, there⟩ | ⟨k₀, there⟩
      · obtain ⟨l', leaf⟩ := more.leaf there
        rw [leaf?_eq_none_of_composite? composite] at leaf
        cases leaf
      · obtain ⟨k', composite', graph⟩ := more.composite there
        cases composite.symm.trans composite'
        have children (name : String) : k₀.child? name = k.child? name := by
          have same := grafts.child?_eq orderly since steps.moves.suffix old (Nat.ne_of_gt above) name
          rw [orderly₀.faithful.assembly, child?_of_composite? composite, child?_of_composite? there] at same
          exact same.symm
        rw [← behind_congr graph.symm children] at found
        obtain ⟨name, child⟩ := child?_of_behind there found
        exact .child there found (ih (orderly₀.adopted_of_child? child)
          (Nat.lt_trans above (orderly₀.forest.descends child).1))

end MaterialGraph
