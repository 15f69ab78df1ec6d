import MaterialGraph.Proofs.Overrides
import MaterialGraph.Proofs.Targets

/-!
# Where selected outputs are

Whatever is selected is an output of a graph of the document or of the library. Without a shader reference it is of the
document (`Selection.isOf_of_chosen`).
-/

namespace MaterialGraph

set_option autoImplicit false

variable {C : Catalog} {g : Graph}

/-- The graphs of which nodes can be built: the top level, and the graphs of the document and of the library. -/
def Catalog.graphs (C : Catalog) : List Graph :=
  .document C.document :: C.documents.flatMap fun d => d.nodeGraphs.map .named

/-- The graphs of the document: the top level, and the named ones. -/
def Document.graphs (d : Document) : List Graph := .document d :: d.nodeGraphs.map .named

/-- An output is of the document, unless it is reached through a shader reference. -/
structure Candidate.IsOf (C : Catalog) (cand : Candidate) : Prop where
  graph : cand.graph ∈ C.graphs
  own : cand.shaderRef = none → cand.graph ∈ C.document.graphs

def Element.IsOf (C : Catalog) : Element → Prop
  | material _ => True
  | graph g => g ∈ C.document.nodeGraphs
  | output parent _ | node parent _ => parent ∈ C.document.graphs

namespace Catalog

theorem mem_graphs {d : Document} {h : NodeGraph} (hd : d ∈ C.documents) (mem : h ∈ d.nodeGraphs) :
    .named h ∈ C.graphs :=
  .tail _ (List.mem_flatMap.2 ⟨d, hd, List.mem_map.2 ⟨h, mem, rfl⟩⟩)

theorem mem_graphs_of_own (mem : g ∈ C.document.graphs) : g ∈ C.graphs := by
  have first : C.document ∈ C.documents := .head _
  rcases List.mem_cons.1 mem with rfl | mem
  · exact .head _
  · obtain ⟨h, own, rfl⟩ := List.mem_map.1 mem
    exact mem_graphs first own

theorem mem_graphs_of_implementation? {nd : NodeDef} {h : NodeGraph} (found : C.implementation? nd = some h) :
    .named h ∈ C.graphs := by
  unfold implementation? at found
  split at found
  · obtain ⟨d, hd, found⟩ := List.exists_of_findSome?_eq_some found
    exact mem_graphs hd (List.mem_of_find?_eq_some found)
  · obtain ⟨d, hd, found⟩ := List.exists_of_findSome?_eq_some found
    exact mem_graphs hd (List.mem_of_find?_eq_some found)

end Catalog

theorem Document.named_mem_graphs {d : Document} {h : NodeGraph} : .named h ∈ d.graphs ↔ h ∈ d.nodeGraphs := by
  simp [Document.graphs]

theorem Candidate.isOf_of_own {cand : Candidate} (own : cand.graph ∈ C.document.graphs) : cand.IsOf C :=
  ⟨Catalog.mem_graphs_of_own own, fun _ => own⟩

namespace Catalog

theorem isOf_of_mem_elements {e : Element} (he : e ∈ C.document.elements) : e.IsOf C := by
  simp only [Document.elements, List.mem_append, List.mem_map] at he
  rcases he with ((⟨m, -, rfl⟩ | ⟨g, hg, rfl⟩) | ⟨n, -, rfl⟩) | ⟨o, -, rfl⟩
  · trivial
  · exact hg
  · exact .head _
  · exact .head _

theorem isOf_of_descendant? {path : String} {e : Element} (h : C.document.descendant? path = some e) : e.IsOf C := by
  unfold Document.descendant? at h
  split at h
  · exact isOf_of_mem_elements (Document.mem_of_child? h).1
  · obtain ⟨g, found, h⟩ := Option.bind_eq_some_iff.1 h
    have own := Document.named_mem_graphs.2 (List.mem_of_find?_eq_some found)
    rcases Option.or_eq_some_iff.1 h with h | ⟨-, h⟩
    · obtain ⟨n, -, rfl⟩ := Option.map_eq_some_iff.1 h
      exact own
    · obtain ⟨o, -, rfl⟩ := Option.map_eq_some_iff.1 h
      exact own
  · cases h

theorem isOf_of_mem_outputsOf {e : Element} (own : e.IsOf C) {cand : Candidate} (mem : cand ∈ C.outputsOf e) :
    cand.IsOf C := by
  cases e with
  | material m =>
      obtain ⟨r, -, mem⟩ := List.mem_flatMap.1 mem
      unfold outputsOfShader at mem
      split at mem
      · next g found =>
        obtain ⟨nd, -, found⟩ := Option.bind_eq_some_iff.1 found
        obtain ⟨o, -, rfl⟩ := List.mem_map.1 mem
        exact ⟨mem_graphs_of_implementation? found, nofun⟩
      · cases mem
  | graph g =>
      obtain ⟨o, -, rfl⟩ := List.mem_map.1 mem
      exact Candidate.isOf_of_own (Document.named_mem_graphs.2 own)
  | output parent o =>
      cases List.mem_singleton.1 mem
      exact Candidate.isOf_of_own own
  | node parent n =>
      change cand ∈ outputsOfNode parent n at mem
      unfold outputsOfNode at mem
      dsimp only at mem
      split at mem
      · obtain ⟨slot, -, found⟩ := List.mem_filterMap.1 mem
        obtain ⟨m, -, rfl⟩ := Option.map_eq_some_iff.1 found
        exact Candidate.isOf_of_own own
      · split at mem
        · cases List.mem_singleton.1 mem
          exact Candidate.isOf_of_own own
        · cases mem

end Catalog

namespace Selection

/-- What the filled slots hold is of the document, or reached through a shader reference. -/
def IsOf (C : Catalog) (s : Selection) : Prop := ∀ k cand, s.get k = .filled cand → cand.IsOf C

theorem IsOf.offer {wanted : Option OutputKind} {s : Selection} {cand : Candidate} (h : IsOf C s) (own : cand.IsOf C) :
    IsOf C (Selection.offer wanted s cand) := by
  intro k cand' filled
  rw [get_offer] at filled
  cases held : s.get k with
  | empty =>
      rw [held] at filled
      split at filled
      · cases filled
        exact own
      · cases filled
  | disabled =>
      rw [held] at filled
      cases filled
  | filled c =>
      rw [held] at filled
      cases filled
      exact h k _ held

theorem IsOf.offerElement {wanted : Option OutputKind} {s : Selection} {e : Element} (h : IsOf C s) (own : e.IsOf C) :
    IsOf C (Selection.offerElement C wanted s e) := by
  have all : ∀ cand ∈ C.outputsOf e, cand.IsOf C := fun _ mem => Catalog.isOf_of_mem_outputsOf own mem
  rw [Selection.offerElement_eq_foldl]
  generalize C.outputsOf e = cands at all
  induction cands generalizing s with
  | nil => exact h
  | cons cand cands ih =>
      rw [List.forall_mem_cons] at all
      exact ih (h.offer all.1) all.2

theorem IsOf.aim {targets : PerKind String} {s : Selection} (h : IsOf C s) (k : OutputKind) :
    IsOf C (Selection.aim C targets s k) := by
  unfold Selection.aim
  dsimp only
  split
  · intro k' cand filled
    by_cases same : k = k'
    · subst same
      rw [PerKind.get_set_self] at filled
      cases filled
    · rw [PerKind.get_set_of_ne s same] at filled
      exact h k' cand filled
  · split
    · next found => exact h.offerElement (Catalog.isOf_of_descendant? found)
    · exact h

theorem isOf_empty : IsOf C (.both .empty) := fun k cand filled => by
  rw [PerKind.get_both] at filled
  cases filled

theorem IsOf.offerElements {es : List Element} {s : Selection} (h : IsOf C s) (all : ∀ e ∈ es, e.IsOf C) :
    IsOf C (Selection.offerElements C s es) := by
  rw [Selection.offerElements_eq_foldl]
  induction es generalizing s with
  | nil => exact h
  | cons e es ih =>
      rw [List.forall_mem_cons] at all
      exact ih (h.offerElement all.1) all.2

theorem isOf_choose (targets : Option (PerKind String)) : IsOf C (choose C targets) := by
  refine IsOf.offerElements ?_ fun e he => Catalog.isOf_of_mem_elements (Catalog.mem_elements_of_discovered he)
  cases targets with
  | none => exact isOf_empty
  | some targets => exact (isOf_empty.aim _).aim _

/-- What is selected is of the document, unless it is reached through a shader reference. -/
theorem isOf_of_chosen {targets : Option (PerKind String)} : ∀ x ∈ (choose C targets).selected, x.2.IsOf C :=
  fun x hx => isOf_choose targets x.1 x.2 (mem_selected.1 hx)

end Selection

end MaterialGraph
