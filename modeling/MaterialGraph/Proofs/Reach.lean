import MaterialGraph.Proofs.Failure
import MaterialGraph.Proofs.Handover

/-!
# No leaf gets lost

A leaf is noted as a child, shared, or handed over as soon as it is there. As long as the journal is calm no child is
replaced, so every leaf stands below the parts that are handed over, and nothing is left behind.

* `Run.rooted`, `Works.rooted` : runs and groups leave no leaf unreached.
* `Works.releasedAll_left` : a calm load that hands something over deletes nothing at its end.
-/

namespace MaterialGraph.Build

set_option autoImplicit false

open Assembly

variable {σ : Type} {r : Renderer σ} {W : Env σ} {c c' : Context σ} {a a' : Assembly} {parts : List PartId}
  {x y z : PartId}

theorem eq_of_below_absent (absent : a.part? x = none) (below : Below a x y) : y = x := by
  induction below with
  | refl => rfl
  | child _ child ih =>
      rw [ih, child?, composite?, absent] at child
      cases child

def Rooted (a : Assembly) (parts : List PartId) : Prop := ∀ x, (a.leaf? x).isSome → Reached a parts x

theorem Reached.kept (reached : Reached a parts x)
    (child : ∀ id name z, a.child? id name = some z → a'.child? id name = some z)
    (shared : ∀ x ∈ a.shared, x ∈ a'.shared) : Reached a' parts x := by
  obtain ⟨y, hy, below⟩ := reached
  refine ⟨y, ?_, below.mono child⟩
  rcases List.mem_append.1 hy with hy | hy
  · exact List.mem_append_left _ hy
  · exact List.mem_append_right _ (shared y hy)

namespace Rooted

theorem kept (rooted : Rooted a parts) (leaf : ∀ x, (a'.leaf? x).isSome → (a.leaf? x).isSome)
    (child : ∀ id name z, a.child? id name = some z → a'.child? id name = some z)
    (shared : ∀ x ∈ a.shared, x ∈ a'.shared) : Rooted a' parts :=
  fun x hx => (rooted x (leaf x hx)).kept child shared

theorem mono {more : List PartId} (rooted : Rooted a parts) (sub : ∀ x ∈ parts, x ∈ more) : Rooted a more := by
  intro x hx
  obtain ⟨y, hy, below⟩ := rooted x hx
  refine ⟨y, ?_, below⟩
  rcases List.mem_append.1 hy with hy | hy
  · exact List.mem_append_left _ (sub y hy)
  · exact List.mem_append_right _ hy

/-- A start that is reached from the others is not needed. -/
theorem drop (rooted : Rooted a (x :: parts)) (reached : Reached a parts x) : Rooted a parts := by
  intro y hy
  obtain ⟨z, hz, below⟩ := rooted y hy
  rcases List.mem_cons.1 hz with rfl | hz
  · obtain ⟨w, hw, above⟩ := reached
    exact ⟨w, hw, below_trans above below⟩
  · exact ⟨z, hz, below⟩

/-- A start that is no part is not needed. -/
theorem drop_absent (rooted : Rooted a (x :: parts)) (absent : a.part? x = none) : Rooted a parts := by
  intro y hy
  obtain ⟨z, hz, below⟩ := rooted y hy
  rcases List.mem_cons.1 hz with rfl | hz
  · rw [eq_of_below_absent absent below, leaf?, absent] at hy
    cases hy
  · exact ⟨z, hz, below⟩

/-- A leaf that is added and reached. -/
theorem addLeaf (rooted : Rooted a parts) (l : Leaf) (reached : Reached a' parts a.size)
    (leaf : ∀ x, (a'.leaf? x).isSome → ((a.apply (.add (.leaf l))).leaf? x).isSome)
    (child : ∀ id name z, a.child? id name = some z → a'.child? id name = some z)
    (shared : ∀ x ∈ a.shared, x ∈ a'.shared) : Rooted a' parts := by
  intro x hx
  have hx := leaf x hx
  rw [leaf?_add_leaf] at hx
  by_cases new : x = a.size
  · exact new ▸ reached
  · rw [if_neg new] at hx
    exact (rooted x hx).kept child shared

end Rooted

/-! ## Runs -/

theorem shared_of_eq (top : a'.top = a.top) (geometry : a'.geometry = a.geometry)
    (freeStanding : a'.freeStanding = a.freeStanding) : ∀ x ∈ a.shared, x ∈ a'.shared := by
  intro x hx
  rw [shared, top, geometry, freeStanding]
  exact hx

theorem Rooted.rebinds {S : PartId → Prop} (rooted : Rooted a parts) (h : Rebinds S a a') : Rooted a' parts := by
  refine rooted.kept (fun x hx => ?_) (fun id name z hz => ?_) (shared_of_eq h.top h.geometry h.freeStanding)
  · rw [← h.leaf]
    exact hx
  · rw [h.child?]
    exact hz

theorem Rooted.barren (rooted : Rooted c.assembly parts) (h : Barren r c c') : Rooted c'.assembly parts := by
  have left := h.leavesNothing
  refine rooted.kept (fun x hx => ?_) (fun id name z hz => ?_)
    (shared_of_eq left.top left.geometry left.freeStanding)
  · -- a leaf is no new part, since these are composites
    obtain ⟨l, hl⟩ := Option.isSome_iff_exists.1 hx
    rcases Nat.lt_or_ge x c.assembly.size with old | new
    · rw [leaf?, ← left.kept old]
      exact hx
    · obtain ⟨g, hg⟩ := left.added new (leaf?_eq_some.1 hl)
      cases hg
  · rw [h.child?]
    exact hz

/-- A composite that is added is no leaf. -/
theorem Rooted.addComposite (rooted : Rooted a parts) (g : Graph) :
    Rooted (a.apply (.add (.composite { graph := g }))) parts := by
  refine rooted.kept (fun x hx => ?_) (fun id name z hz => ?_) fun x hx => hx
  · rw [leaf?_add_composite] at hx
    exact hx
  · rw [child?_add_composite]
    exact hz

theorem child?_note_of_absent {id : PartId} {name : String} (absent : a.child? id name = none) (x : PartId) :
    ∀ j n z, a.child? j n = some z → (a.apply (.child id name x)).child? j n = some z := by
  intro j n z hz
  rw [child?_child_of_ne]
  · exact hz
  · by_cases hj : id = j
    · refine .inr fun hn => ?_
      rw [hj, hn, hz] at absent
      cases absent
    · exact .inl hj

theorem Starts.shared {g : NodeGraph} (h : Starts g c x c') : x ∈ c'.assembly.shared := by
  cases h with
  | first => exact mem_shared.2 (.inr (.inr ⟨g.name, _, Std.TreeMap.getElem?_insert_self, rfl⟩))
  | again => exact mem_shared.2 (.inr (.inr ⟨g.name, _, Std.TreeMap.getElem?_insert_self, rfl⟩))

theorem shared_freeStanding {name : String} {state : Construction}
    (same : ∀ before : Construction, a.freeStanding[name]? = some before → before.id = state.id) :
    ∀ x ∈ a.shared, x ∈ (a.apply (.freeStanding name state)).shared := by
  intro x hx
  rcases mem_shared.1 hx with top | geometry | ⟨n, before, known, rfl⟩
  · exact mem_shared.2 (.inl top)
  · exact mem_shared.2 (.inr (.inl geometry))
  · refine mem_shared.2 (.inr (.inr ?_))
    change ∃ (m : String) (after : Construction), (a.freeStanding.insert name state)[m]? = some after ∧ _
    by_cases hn : name = n
    · refine ⟨name, state, Std.TreeMap.getElem?_insert_self, ?_⟩
      rw [same before (by rw [hn]; exact known)]
    · exact ⟨n, before, (getElem?_insert_of_ne hn).trans known, rfl⟩

theorem Rooted.starts {g : NodeGraph} (rooted : Rooted c.assembly parts) (h : Starts g c x c') :
    Rooted c'.assembly parts := by
  cases h with
  | first absent =>
      refine (rooted.addComposite (.named g)).kept (fun x hx => hx) (fun id name z hz => hz)
        (shared_freeStanding fun before known => ?_)
      change c.assembly.freeStanding[g.name]? = some before at known
      rw [absent] at known
      cases known
  | again built =>
      refine rooted.kept (fun x hx => hx) (fun id name z hz => hz) (shared_freeStanding fun before known => ?_)
      rw [built] at known
      cases known
      rfl

theorem Starts.building {g : NodeGraph} (h : Starts g c x c') :
    c'.assembly.freeStanding[g.name]? = some (.building x) := by
  cases h with
  | first => exact Std.TreeMap.getElem?_insert_self
  | again => exact Std.TreeMap.getElem?_insert_self

/-- In a calm run the composite in which it is reaches every leaf that the others do not. -/
theorem Run.rooted {ph : Phase} {id : PartId} {s : Nat} (h : Run W ph id s c c') (calm : Calm c'.journal)
    (hid : ph = .giving → id ∈ underway c.journal) (rooted : Rooted c.assembly (id :: parts)) :
    Rooted c'.assembly (id :: parts) := by
  induction h generalizing parts with
  | refl => exact rooted
  | trans first second ih₁ ih₂ =>
      refine ih₂ calm ?_ (ih₁ (second.calm calm) hid rooted)
      rw [first.underway_eq]
      exact hid
  | message => exact rooted
  | barren barren => exact rooted.barren barren
  | task inner _ ih => exact ih calm.2 (fun _ => List.mem_cons_self) rooted
  | @leafChild id s c c₁ n k l composite node absent makes =>
      have absent₁ : (c₁.edit (.add (.leaf l))).assembly.child? id n.name = none := by
        rw [makes.child?, child?_of_composite? composite, absent]
      have there : (c₁.edit (.add (.leaf l))).assembly.composite? id = some k := by
        rw [Context.edit_assembly, composite?_add_leaf, makes.assembly, composite]
      rw [← makes.assembly] at rooted
      refine rooted.addLeaf l ⟨id, List.mem_cons_self, .child .refl (child?_child_self there n.name _)⟩
        (fun x hx => ?_) (fun j name z hz => ?_) fun x hx => hx
      · rw [Context.edit_assembly, leaf?_child] at hx
        exact hx
      · exact child?_note_of_absent absent₁ _ j name z ((child?_add_leaf l name).trans hz)
  | @compositeChild id s c c₁ n k g composite node absent recipe implementation inner ih =>
      have absent₁ : c₁.assembly.child? id n.name = none := by
        rw [inner.leavesBusy calm.2 _ (hid rfl) nofun, Context.edit_assembly, child?_add_composite,
          child?_of_composite? composite, absent]
      obtain ⟨k₁, there, -⟩ := ((Extends.add c.assembly _).trans inner.steps.extends).composite composite
      have built : Rooted c₁.assembly (c.assembly.size :: id :: parts) := by
        refine ih calm.2 nofun ((rooted.addComposite (.named g)).mono fun x hx => ?_)
        exact List.mem_cons_of_mem _ hx
      have noted : Rooted (c₁.edit (.child id n.name c.assembly.size)).assembly (c.assembly.size :: id :: parts) := by
        refine built.kept (fun x hx => ?_) (child?_note_of_absent absent₁ _) fun x hx => hx
        rw [Context.edit_assembly, leaf?_child] at hx
        exact hx
      exact noted.drop ⟨id, List.mem_cons_self, .child .refl (child?_child_self there n.name _)⟩
  | socket =>
      refine rooted.kept (fun x hx => ?_) (fun j name z hz => ?_) fun x hx => hx
      · rw [Context.edit_assembly, leaf?_socket] at hx
        exact hx
      · rw [Context.edit_assembly, child?_socket]
        exact hz
  | literal _ binds => exact rooted.rebinds binds.rebinds
  | inside _ _ _ _ connects =>
      refine (rooted.rebinds connects.rebinds).kept (fun x hx => ?_) (fun j name z hz => ?_) fun x hx => hx
      · rw [Context.edit_assembly, leaf?_edge] at hx
        exact hx
      · rw [Context.edit_assembly, child?_edge]
        exact hz
  | insideFailed _ _ _ _ connects => exact rooted.rebinds connects.rebinds
  | @geometry ph id s c c₁ g l quantity absent creation =>
      rw [← creation.assembly] at rooted absent
      refine rooted.addLeaf l ⟨c₁.assembly.size, List.mem_append_right _ ?_, .refl⟩ (fun x hx => hx)
        (fun j name z hz => (child?_add_leaf l name).trans hz) fun x hx => ?_
      · exact mem_shared.2 (.inr (.inl ⟨g.name, Std.TreeMap.getElem?_insert_self⟩))
      · rcases mem_shared.1 hx with top | ⟨name, known⟩ | free
        · exact mem_shared.2 (.inl top)
        · exact mem_shared.2 (.inr (.inl ⟨name, (Extends.share (.geometry absent)).geometry known⟩))
        · exact mem_shared.2 (.inr (.inr free))
  | @top ph id s c absent =>
      refine (rooted.addComposite (.document W.catalog.document)).kept (fun x hx => hx) (fun j name z hz => hz)
        fun x hx => ?_
      rcases mem_shared.1 hx with top | rest
      · change c.assembly.top = some x at top
        rw [absent] at top
        cases top
      · exact mem_shared.2 (.inr rest)
  | @viaTop ph id t s c c₁ name success top inner asks ih =>
      have above : Rooted c.assembly (t :: id :: parts) := rooted.mono fun x hx => List.mem_cons_of_mem _ hx
      refine (ih calm.2 (fun _ => List.mem_cons_self) above).drop ⟨t, List.mem_append_right _ ?_, .refl⟩
      exact mem_shared.2 (.inl (inner.steps.extends.top top))
  | @viaGraph ph id x s c c₁ c₂ g starts inner ih =>
      have above : Rooted c₁.assembly (x :: id :: parts) :=
        (rooted.starts starts).mono fun x hx => List.mem_cons_of_mem _ hx
      have known := inner.freeStanding starts.building
      have built : Rooted (c₂.edit (.freeStanding g.name (.built x))).assembly (x :: id :: parts) := by
        refine (ih calm.2 nofun above).kept (fun x hx => hx) (fun j name z hz => hz)
          (shared_freeStanding fun before hb => ?_)
        rw [known] at hb
        cases hb
        rfl
      refine built.drop ⟨x, List.mem_append_right _ ?_, .refl⟩
      exact mem_shared.2 (.inr (.inr ⟨g.name, _, Std.TreeMap.getElem?_insert_self, rfl⟩))
  | outside _ _ connects => exact rooted.rebinds connects.rebinds

/-! ## Loads -/

/-- Calm groups leave every leaf to be handed over. -/
theorem Works.rooted {harvest harvest' : Harvest} (h : Works W harvest c harvest' c') (calm : Calm c'.journal)
    (rooted : Rooted c.assembly harvest.parts) : Rooted c'.assembly harvest'.parts := by
  have more {parts : List PartId} {x : PartId} : ∀ y ∈ parts, y ∈ parts ++ [x] :=
    fun y hy => List.mem_append_left _ hy
  induction h with
  | refl | root => exact rooted
  | trans _ second ih₁ ih₂ => exact ih₂ calm (ih₁ (calm.of_suffix second.steps.moves.suffix) rooted)
  | mark _ _ mark => cases mark <;> exact rooted
  | inside harvest known run =>
      exact (run.rooted calm nofun (rooted.mono fun x hx => List.mem_cons_of_mem _ hx)).drop known
  | @elsewhere harvest c c₁ run =>
      -- the run is in no composite of its own: take one that is not there
      have above : Rooted c.assembly (c₁.assembly.size :: harvest.parts) :=
        rooted.mono fun x hx => List.mem_cons_of_mem _ hx
      exact ((run .asking c₁.assembly.size 0).rooted calm nofun above).drop_absent
        (part?_eq_none.2 (Nat.le_refl _))
  | more => exact rooted.mono more
  | @own harvest c c₁ g inner =>
      have above : Rooted (c.edit (.add (.composite { graph := g }))).assembly (c.assembly.size :: harvest.parts) :=
        (rooted.addComposite g).mono fun x hx => List.mem_cons_of_mem _ hx
      refine (inner.rooted calm nofun above).mono fun x hx => ?_
      rcases List.mem_cons.1 hx with rfl | hx
      · exact List.mem_append_right _ (List.mem_singleton_self _)
      · exact List.mem_append_left _ hx
  | @wrap harvest c c₁ x h l holds creation =>
      rw [← creation.assembly] at rooted
      refine (rooted.mono more).addLeaf l ⟨c₁.assembly.size, ?_, .refl⟩ (fun x hx => hx)
        (fun j name z hz => (child?_add_leaf l name).trans hz) fun x hx => hx
      exact List.mem_append_left _ (List.mem_append_right _ (List.mem_singleton_self _))
  | wrapFailed _ _ creation =>
      rw [creation.assembly]
      exact rooted

theorem releasedAll_of_none {xs : List PartId} (none : ∀ x ∈ xs, c.assembly.leaf? x = none) :
    releasedAll r xs c = c := by
  induction xs with
  | nil => rfl
  | cons x xs ih =>
      rw [releasedAll, none x List.mem_cons_self]
      exact ih fun y hy => none y (List.mem_cons_of_mem _ hy)

/-- What is left behind are no leaves. -/
theorem Rooted.left_none (rooted : Rooted a parts) (hx : x ∈ LoadResult.left a parts) : a.leaf? x = none := by
  rw [← Option.not_isSome_iff_eq_none]
  intro there
  obtain ⟨y, hy, below⟩ := rooted x there
  exact (LoadResult.mem_left.1 hx).2 (mem_reachable hy below)

/-- A calm load that hands something over does so with the assembly that the groups have left, and deletes nothing. -/
theorem Works.releasedAll_left {s : σ} {harvest : Harvest} (works : Works W {} { system := s } harvest c)
    (calm : Calm c.journal) : releasedAll r (LoadResult.left c.assembly harvest.parts) c = c :=
  have rooted : Rooted c.assembly harvest.parts := works.rooted calm nofun
  releasedAll_of_none fun _ hx => rooted.left_none hx

end MaterialGraph.Build
