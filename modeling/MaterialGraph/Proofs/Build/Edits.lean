import MaterialGraph.Proofs.Build.After

/-!
# Reading an assembly after an edit

One lemma for each thing that is read (`size`, `part?`, `leaf?`, `composite?`, `child?`) and each kind of edit. The
children of a composite come from no edit but `child`, and its graph from none at all.
-/

namespace MaterialGraph

set_option autoImplicit false

theorem Composite.mem_producersOf_note {k : Composite} {e : Edge} {consumer producer : String} :
    producer ∈ (k.note e).producersOf consumer ↔
      consumer = e.consumer ∧ producer = e.producer ∨ producer ∈ k.producersOf consumer := by
  change producer ∈ (k.producers.insert e.consumer ((k.producersOf e.consumer).insert e.producer)).getD consumer [] ↔ _
  rw [Std.TreeMap.getD_insert]
  split
  · next same =>
    rw [Std.LawfulEqCmp.compare_eq_iff_eq] at same
    subst same
    rw [List.mem_insert_iff, and_iff_right rfl]
  · next other =>
    rw [or_iff_right fun new => other (Std.LawfulEqCmp.compare_eq_iff_eq.2 new.1.symm)]
    rfl

namespace Assembly

variable {a : Assembly} {id x : PartId}

theorem part?_eq_none : a.part? id = none ↔ a.size ≤ id := by
  rw [part?, size, Array.getElem?_eq_none_iff]

theorem lt_size_of_part? {q : Part} (h : a.part? id = some q) : id < a.size := by
  rcases Nat.lt_or_ge id a.size with hlt | hge
  · exact hlt
  · rw [part?_eq_none.2 hge] at h
    cases h

theorem leaf?_eq_some {l : Leaf} : a.leaf? id = some l ↔ a.part? id = some (.leaf l) := by
  unfold leaf?
  split
  · next h => simp [h]
  · next h =>
      constructor
      · rintro ⟨⟩
      · intro h'
        exact absurd h' (h l)

theorem composite?_eq_some {k : Composite} : a.composite? id = some k ↔ a.part? id = some (.composite k) := by
  unfold composite?
  split
  · next h => simp [h]
  · next h =>
      constructor
      · rintro ⟨⟩
      · intro h'
        exact absurd h' (h k)

theorem lt_size_of_leaf? {l : Leaf} (h : a.leaf? id = some l) : id < a.size :=
  lt_size_of_part? (leaf?_eq_some.1 h)

theorem lt_size_of_composite? {k : Composite} (h : a.composite? id = some k) : id < a.size :=
  lt_size_of_part? (composite?_eq_some.1 h)

theorem composite?_eq_none_of_leaf? {l : Leaf} (h : a.leaf? id = some l) : a.composite? id = none := by
  rw [composite?, leaf?_eq_some.1 h]

theorem leaf?_eq_none_of_composite? {k : Composite} (h : a.composite? id = some k) : a.leaf? id = none := by
  rw [leaf?, composite?_eq_some.1 h]

/-! ## New parts -/

@[simp] theorem size_add (q : Part) : (a.apply (.add q)).size = a.size + 1 := by
  simp [apply, size]

theorem part?_add (q : Part) : (a.apply (.add q)).part? id = if id = a.size then some q else a.part? id := by
  change (a.parts.push q)[id]? = _
  rw [Array.getElem?_push]
  rfl

theorem part?_add_self (q : Part) : (a.apply (.add q)).part? a.size = some q := by
  rw [part?_add, if_pos rfl]

theorem part?_add_of_ne (q : Part) (h : id ≠ a.size) : (a.apply (.add q)).part? id = a.part? id := by
  rw [part?_add, if_neg h]

theorem leaf?_add_leaf (l : Leaf) :
    (a.apply (.add (.leaf l))).leaf? id = if id = a.size then some l else a.leaf? id := by
  unfold leaf?
  by_cases h : id = a.size
  · rw [if_pos h, h, part?_add_self]
  · rw [if_neg h, part?_add_of_ne _ h]

theorem leaf?_add_composite (k : Composite) :
    (a.apply (.add (.composite k))).leaf? id = a.leaf? id := by
  unfold leaf?
  by_cases h : id = a.size
  · rw [h, part?_add_self, part?_eq_none.2 (Nat.le_refl _)]
  · rw [part?_add_of_ne _ h]

theorem composite?_add_leaf (l : Leaf) :
    (a.apply (.add (.leaf l))).composite? id = a.composite? id := by
  unfold composite?
  by_cases h : id = a.size
  · rw [h, part?_add_self, part?_eq_none.2 (Nat.le_refl _)]
  · rw [part?_add_of_ne _ h]

theorem composite?_add_composite (k : Composite) :
    (a.apply (.add (.composite k))).composite? id = if id = a.size then some k else a.composite? id := by
  unfold composite?
  by_cases h : id = a.size
  · rw [if_pos h, h, part?_add_self]
  · rw [if_neg h, part?_add_of_ne _ h]

/-! ## Leaves -/

@[simp] theorem size_leaf (l : Leaf) : (a.apply (.leaf x l)).size = a.size := by
  simp [apply, size]

theorem part?_leaf_self (l : Leaf) (hx : x < a.size) : (a.apply (.leaf x l)).part? x = some (.leaf l) := by
  change (a.parts.setIfInBounds x (.leaf l))[x]? = _
  rw [Array.getElem?_setIfInBounds_self_of_lt hx]

theorem part?_leaf_of_ne (l : Leaf) (h : id ≠ x) : (a.apply (.leaf x l)).part? id = a.part? id := by
  change (a.parts.setIfInBounds x (.leaf l))[id]? = _
  rw [Array.getElem?_setIfInBounds_ne h.symm]
  rfl

theorem leaf?_leaf {l₀ : Leaf} (hx : a.leaf? x = some l₀) (l : Leaf) :
    (a.apply (.leaf x l)).leaf? id = if id = x then some l else a.leaf? id := by
  have hlt := lt_size_of_leaf? hx
  unfold leaf?
  by_cases h : id = x
  · rw [if_pos h, h, part?_leaf_self l hlt]
  · rw [if_neg h, part?_leaf_of_ne l h]

theorem composite?_leaf {l₀ : Leaf} (hx : a.leaf? x = some l₀) (l : Leaf) :
    (a.apply (.leaf x l)).composite? id = a.composite? id := by
  have hlt := lt_size_of_leaf? hx
  have hc := composite?_eq_none_of_leaf? hx
  unfold composite? at hc ⊢
  by_cases h : id = x
  · rw [h, part?_leaf_self l hlt, hc]
  · rw [part?_leaf_of_ne l h]

/-! ## Composites -/

theorem size_modifyComposite (f : Composite → Composite) : (a.modifyComposite x f).size = a.size := by
  simp [modifyComposite, size]

theorem part?_modifyComposite (f : Composite → Composite) :
    (a.modifyComposite x f).part? id = if x = id then (a.part? id).map fun
      | .composite k => .composite (f k)
      | q => q else a.part? id := by
  refine Array.getElem?_modify.trans ?_
  by_cases h : x = id
  · exact (if_pos h).trans (if_pos h).symm
  · exact (if_neg h).trans (if_neg h).symm

theorem leaf?_modifyComposite (f : Composite → Composite) : (a.modifyComposite x f).leaf? id = a.leaf? id := by
  unfold leaf?
  rw [part?_modifyComposite]
  by_cases h : x = id
  · rw [if_pos h]
    cases a.part? id with
    | none => rfl
    | some q => cases q <;> rfl
  · rw [if_neg h]

theorem composite?_modifyComposite (f : Composite → Composite) :
    (a.modifyComposite x f).composite? id = if x = id then (a.composite? id).map f else a.composite? id := by
  unfold composite?
  rw [part?_modifyComposite]
  by_cases h : x = id
  · rw [if_pos h, if_pos h]
    cases a.part? id with
    | none => rfl
    | some q => cases q <;> rfl
  · rw [if_neg h, if_neg h]

@[simp] theorem size_child (name : String) (child : PartId) : (a.apply (.child x name child)).size = a.size :=
  size_modifyComposite _

@[simp] theorem size_socket (interface : String) (s : Socket) : (a.apply (.socket x interface s)).size = a.size :=
  size_modifyComposite _

@[simp] theorem size_edge (e : Edge) : (a.apply (.edge x e)).size = a.size := size_modifyComposite _

@[simp] theorem leaf?_child (name : String) (child : PartId) :
    (a.apply (.child x name child)).leaf? id = a.leaf? id :=
  leaf?_modifyComposite _

@[simp] theorem leaf?_socket (interface : String) (s : Socket) :
    (a.apply (.socket x interface s)).leaf? id = a.leaf? id :=
  leaf?_modifyComposite _

@[simp] theorem leaf?_edge (e : Edge) : (a.apply (.edge x e)).leaf? id = a.leaf? id := leaf?_modifyComposite _

theorem composite?_child (name : String) (child : PartId) :
    (a.apply (.child x name child)).composite? id =
      if x = id then (a.composite? id).map fun k => { k with children := k.children.insert name child }
      else a.composite? id :=
  composite?_modifyComposite _

theorem composite?_socket (interface : String) (s : Socket) :
    (a.apply (.socket x interface s)).composite? id =
      if x = id then (a.composite? id).map fun k =>
        { k with sockets := k.sockets.insert interface ((k.sockets.getD interface []) ++ [s]) }
      else a.composite? id :=
  composite?_modifyComposite _

theorem composite?_edge (e : Edge) :
    (a.apply (.edge x e)).composite? id =
      if x = id then (a.composite? id).map fun k => k.note e else a.composite? id :=
  composite?_modifyComposite _

/-- It is noted of a composite that one child takes a value from another. -/
def HasEdge (a : Assembly) (id : PartId) (consumer producer : String) : Prop :=
  ∃ k, a.composite? id = some k ∧ producer ∈ k.producersOf consumer

theorem hasEdge_edge {k : Composite} (there : a.composite? id = some k) (e : Edge) :
    (a.apply (.edge id e)).HasEdge id e.consumer e.producer := by
  refine ⟨k.note e, ?_, Composite.mem_producersOf_note.2 (.inl ⟨rfl, rfl⟩)⟩
  rw [composite?_edge, if_pos rfl, there]
  rfl

/-! ## What holds of every composite -/

def Each (P : Composite → Prop) (a : Assembly) : Prop := ∀ id k, a.composite? id = some k → P k

namespace Each

variable {P : Composite → Prop} {a' : Assembly}

theorem congr (h : Each P a) (same : ∀ id, a'.composite? id = a.composite? id) : Each P a' := by
  intro id k there
  rw [same] at there
  exact h id k there

theorem leaf (h : Each P a) (l : Leaf) : Each P (a.apply (.add (.leaf l))) := h.congr fun _ => composite?_add_leaf l

theorem composite (h : Each P a) {k : Composite} (new : P k) : Each P (a.apply (.add (.composite k))) := by
  intro id k' there
  rw [composite?_add_composite] at there
  split at there
  · cases there
    exact new
  · exact h id k' there

theorem modify (h : Each P a) {f : Composite → Composite} (kept : ∀ k, a.composite? x = some k → P k → P (f k)) :
    Each P (a.modifyComposite x f) := by
  intro id k there
  rw [composite?_modifyComposite] at there
  split at there
  · next same =>
    subst same
    obtain ⟨k, old, rfl⟩ := Option.map_eq_some_iff.1 there
    exact kept k old (h x k old)
  · exact h id k there

end Each

/-! ## Shared parts and marks -/

@[simp] theorem size_top : (a.apply (.top x)).size = a.size := rfl

@[simp] theorem leaf?_top : (a.apply (.top x)).leaf? id = a.leaf? id := rfl

@[simp] theorem composite?_top : (a.apply (.top x)).composite? id = a.composite? id := rfl

@[simp] theorem size_geometry (name : String) : (a.apply (.geometry name x)).size = a.size := rfl

@[simp] theorem leaf?_geometry (name : String) : (a.apply (.geometry name x)).leaf? id = a.leaf? id := rfl

@[simp] theorem composite?_geometry (name : String) :
    (a.apply (.geometry name x)).composite? id = a.composite? id := rfl

@[simp] theorem size_freeStanding (name : String) (state : Construction) :
    (a.apply (.freeStanding name state)).size = a.size := rfl

@[simp] theorem leaf?_freeStanding (name : String) (state : Construction) :
    (a.apply (.freeStanding name state)).leaf? id = a.leaf? id := rfl

@[simp] theorem composite?_freeStanding (name : String) (state : Construction) :
    (a.apply (.freeStanding name state)).composite? id = a.composite? id := rfl

@[simp] theorem apply_began (t : Task) : a.apply (.began t) = a := rfl

@[simp] theorem apply_ended (t : Task) (success : Bool) : a.apply (.ended t success) = a := rfl

/-! ## Children -/

/-- The part that a composite has for the node of a name. -/
def child? (a : Assembly) (id : PartId) (name : String) : Option PartId := (a.composite? id).bind (·.child? name)

theorem child?_of_composite? {k : Composite} (h : a.composite? id = some k) (name : String) :
    a.child? id name = k.child? name := by
  rw [child?, h]
  rfl

theorem child?_congr {a' : Assembly} (h : a'.composite? id = a.composite? id) (name : String) :
    a'.child? id name = a.child? id name := by
  rw [child?, child?, h]

theorem child?_add_leaf (l : Leaf) (name : String) : (a.apply (.add (.leaf l))).child? id name = a.child? id name :=
  child?_congr (composite?_add_leaf l) name

theorem child?_add_composite (g : Graph) (name : String) :
    (a.apply (.add (.composite { graph := g }))).child? id name = a.child? id name := by
  unfold child?
  rw [composite?_add_composite]
  by_cases h : id = a.size
  · have absent : a.composite? a.size = none := by
      rw [composite?, part?_eq_none.2 (Nat.le_refl _)]
    rw [if_pos h, h, absent]
    exact Std.TreeMap.getElem?_emptyc
  · rw [if_neg h]

theorem child?_child_self {k : Composite} (h : a.composite? x = some k) (name : String) (y : PartId) :
    (a.apply (.child x name y)).child? x name = some y := by
  unfold child?
  rw [composite?_child, if_pos rfl, h]
  exact Std.TreeMap.getElem?_insert_self

theorem child?_child_of_ne {name n : String} (h : x ≠ id ∨ n ≠ name) (y : PartId) :
    (a.apply (.child x n y)).child? id name = a.child? id name := by
  unfold child?
  rw [composite?_child]
  by_cases hx : x = id
  · rw [if_pos hx]
    cases a.composite? id with
    | none => rfl
    | some k =>
        have hn : n ≠ name := h.resolve_left fun h => h hx
        change (k.children.insert n y)[name]? = k.children[name]?
        rw [Std.TreeMap.getElem?_insert, if_neg]
        rw [Std.LawfulEqCmp.compare_eq_iff_eq]
        exact hn
  · rw [if_neg hx]

theorem child?_socket (interface : String) (s : Socket) (name : String) :
    (a.apply (.socket x interface s)).child? id name = a.child? id name := by
  unfold child?
  rw [composite?_socket]
  by_cases hx : x = id
  · rw [if_pos hx]
    cases a.composite? id <;> rfl
  · rw [if_neg hx]

theorem child?_edge (e : Edge) (name : String) : (a.apply (.edge x e)).child? id name = a.child? id name := by
  unfold child?
  rw [composite?_edge]
  by_cases hx : x = id
  · rw [if_pos hx]
    cases a.composite? id <;> rfl
  · rw [if_neg hx]

end Assembly

end MaterialGraph
