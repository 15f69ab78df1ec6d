import MaterialGraph.Proofs.Targets

/-!
# Name paths

A path is written with slashes between names, and read by cutting it at its slashes and leaving out what is empty. What
a path leads to has the names that are left as its own path; and where elements can be told apart by their names, the
path of an element leads to it.

* `NodeGraph.mem_of_child?`, `NodeGraph.WellNamed.child?_name` : what is found in a graph, and that all of it is.
* `Document.namePath_inverts_descendant?` : name paths and their resolution, both ways.
-/

namespace MaterialGraph

set_option autoImplicit false

namespace Document

/-- The names of a path are the pieces between its slashes that are not empty. -/
theorem pathNames_eq (path : String) :
    pathNames path = ((path.toList.splitOn '/').filter fun piece => !piece.isEmpty).map String.ofList := by
  rw [pathNames, Text.splitOn, Text.splitChars_eq_splitOn, List.filter_map]
  have same (piece : List Char) : (!(String.ofList piece).isEmpty) = !piece.isEmpty := by cases piece <;> simp
  exact congrArg _ (List.filter_congr fun piece _ => same piece)

/-- Names that can stand in a path are found again in the path that they make. -/
theorem pathNames_intercalate {names : List String} (some : names ≠ [])
    (plain : ∀ name ∈ names, name ≠ "" ∧ '/' ∉ name.toList) : pathNames ("/".intercalate names) = names := by
  have cut : Text.splitOn '/' ("/".intercalate names) = names :=
    Text.splitOn_intercalate some fun name mem => (plain name mem).2
  rw [pathNames, cut, List.filter_eq_self]
  intro name mem
  simpa using (plain name mem).1

end Document

/-! ## Inside a named graph -/

/-- Where names are distinct, the search for the name of an element ends at it. -/
theorem find?_name_eq {α : Type} {f : α → String} {l : List α} (distinct : (l.map f).Nodup) {x : α} (hx : x ∈ l) :
    (l.find? fun y => f y = f x) = some x := by
  have found : (l.find? fun y => f y = f x).isSome := List.find?_isSome.2 ⟨x, hx, decide_eq_true rfl⟩
  obtain ⟨y, found⟩ := Option.isSome_iff_exists.1 found
  have same : f y = f x := by simpa using List.find?_some found
  rw [found, List.inj_on_of_nodup_map distinct (List.mem_of_find?_eq_some found) hx same]

namespace NodeGraph

def elements (g : NodeGraph) : List Element :=
  g.nodes.map (.node (.named g)) ++ g.outputs.map (.output (.named g))

def names (g : NodeGraph) : List String := g.nodes.map Node.name ++ g.outputs.map Output.name

/-- The nodes and outputs of a graph have names of their own that can stand in a path. -/
structure WellNamed (g : NodeGraph) : Prop where
  distinct : g.names.Nodup
  plain : ∀ name ∈ g.names, name ≠ "" ∧ '/' ∉ name.toList

instance (g : NodeGraph) : Decidable g.WellNamed :=
  decidable_of_iff (g.names.Nodup ∧ ∀ name ∈ g.names, name ≠ "" ∧ '/' ∉ name.toList)
    ⟨fun h => ⟨h.1, h.2⟩, fun h => ⟨h.1, h.2⟩⟩

/-- The element of a name in a graph. Nodes come before outputs. -/
def child? (g : NodeGraph) (name : String) : Option Element :=
  let parent := Graph.named g
  ((parent.node? name).map (.node parent)).or ((parent.output? name).map (.output parent))

variable {g : NodeGraph}

/-- What is found in a graph is a part of it with the name in its path. -/
theorem mem_of_child? {name : String} {e : Element} (h : g.child? name = some e) :
    e ∈ g.elements ∧ e.namePath = "/".intercalate [g.name, name] := by
  have path : g.name ++ "/" ++ name = "/".intercalate [g.name, name] := by
    rw [String.intercalate_cons_cons, String.intercalate_singleton]
  rcases Option.or_eq_some_iff.1 h with h | ⟨-, h⟩
  · obtain ⟨n, found, rfl⟩ := Option.map_eq_some_iff.1 h
    have named : n.name = name := by simpa using List.find?_some found
    exact ⟨List.mem_append_left _ (List.mem_map_of_mem (List.mem_of_find?_eq_some found)), named ▸ path⟩
  · obtain ⟨o, found, rfl⟩ := Option.map_eq_some_iff.1 h
    have named : o.name = name := by simpa using List.find?_some found
    exact ⟨List.mem_append_right _ (List.mem_map_of_mem (List.mem_of_find?_eq_some found)), named ▸ path⟩

theorem WellNamed.child?_node (named : g.WellNamed) {n : Node} (hn : n ∈ g.nodes) :
    g.child? n.name = some (.node (.named g) n) := by
  have found : (Graph.named g).node? n.name = some n := find?_name_eq (List.nodup_append.1 named.distinct).1 hn
  rw [child?, found]
  rfl

theorem WellNamed.child?_output (named : g.WellNamed) {o : Output} (ho : o ∈ g.outputs) :
    g.child? o.name = some (.output (.named g) o) := by
  obtain ⟨-, outputs, apart⟩ := List.nodup_append.1 named.distinct
  have none : (Graph.named g).node? o.name = none := by
    refine List.find?_eq_none.2 fun n hn same => ?_
    exact apart n.name (List.mem_map_of_mem hn) o.name (List.mem_map_of_mem ho) (of_decide_eq_true same)
  have found : (Graph.named g).output? o.name = some o := find?_name_eq outputs ho
  rw [child?, none, found]
  rfl

/-- Every part of a graph has a name under which it is found. -/
theorem WellNamed.child?_name (named : g.WellNamed) {e : Element} (he : e ∈ g.elements) :
    ∃ name ∈ g.names, e.namePath = "/".intercalate [g.name, name] ∧ g.child? name = some e := by
  rcases List.mem_append.1 he with he | he
  · obtain ⟨n, hn, rfl⟩ := List.mem_map.1 he
    have found := named.child?_node hn
    exact ⟨n.name, List.mem_append_left _ (List.mem_map_of_mem hn), (mem_of_child? found).2, found⟩
  · obtain ⟨o, ho, rfl⟩ := List.mem_map.1 he
    have found := named.child?_output ho
    exact ⟨o.name, List.mem_append_right _ (List.mem_map_of_mem ho), (mem_of_child? found).2, found⟩

end NodeGraph

/-! ## Paths of a document -/

namespace Document

variable {d : Document}

theorem descendant?_of_two {path graph name : String} (names : pathNames path = [graph, name]) :
    d.descendant? path = (d.nodeGraph? graph).bind fun g => g.child? name := by
  rw [descendant?, names]
  rfl

/-- What a path leads to has its names, with single slashes between them, as its own path. -/
theorem namePath_of_descendant? {path : String} {e : Element} (h : d.descendant? path = some e) :
    e.namePath = "/".intercalate (pathNames path) := by
  cases names : pathNames path with
  | nil => simp [descendant?, names] at h
  | cons first rest =>
    cases rest with
    | nil =>
        have found : d.child? first = some e := by simpa only [descendant?, names] using h
        rw [(mem_of_child? found).2, String.intercalate_singleton]
    | cons second rest =>
        cases rest with
        | nil =>
            rw [descendant?_of_two names, Option.bind_eq_some_iff] at h
            obtain ⟨g, graph, found⟩ := h
            have named : g.name = first := by simpa using List.find?_some graph
            rw [(NodeGraph.mem_of_child? found).2, named]
        | cons third rest => simp [descendant?, names] at h

theorem WellNamed.nodeGraph?_name (named : d.WellNamed) {g : NodeGraph} (hg : g ∈ d.nodeGraphs) :
    d.nodeGraph? g.name = some g := by
  refine find?_name_eq (f := NodeGraph.name) (named.distinct.sublist ?_) hg
  have graphs : d.nodeGraphs.map NodeGraph.name = (d.nodeGraphs.map Element.graph).map Element.namePath := by
    rw [List.map_map]
    rfl
  rw [graphs, elements, List.append_assoc, List.append_assoc]
  exact ((List.sublist_append_left _ _).trans (List.sublist_append_right _ _)).map _

/-- The path of a part of a named graph leads to it. -/
theorem WellNamed.descendant?_inner (named : d.WellNamed) {g : NodeGraph} (hg : g ∈ d.nodeGraphs)
    (inner : g.WellNamed) {e : Element} (he : e ∈ g.elements) : d.descendant? e.namePath = some e := by
  obtain ⟨name, mem, path, found⟩ := inner.child?_name he
  have graph : Element.graph g ∈ d.elements := by simp [elements, hg]
  have plain : ∀ n ∈ [g.name, name], n ≠ "" ∧ '/' ∉ n.toList :=
    List.forall_mem_cons.2 ⟨named.plain _ graph, List.forall_mem_singleton.2 (inner.plain name mem)⟩
  rw [path, descendant?_of_two (pathNames_intercalate (List.cons_ne_nil _ _) plain), named.nodeGraph?_name hg]
  exact found

/-- Name paths and their resolution are inverse to each other. What a path leads to has as its own path the pieces of
the path that are not empty, joined with slashes. If the elements of the top level, and the nodes and outputs of each
named graph, have names of their own that are not empty and contain no slash, the path of each of them leads to it. -/
theorem namePath_inverts_descendant? (d : Document) :
    (∀ path e, d.descendant? path = some e →
      e.namePath =
        "/".intercalate (((path.toList.splitOn '/').filter fun piece => !piece.isEmpty).map String.ofList)) ∧
    (d.WellNamed → (∀ g ∈ d.nodeGraphs, g.WellNamed) →
      ∀ e ∈ d.elements ++ d.nodeGraphs.flatMap NodeGraph.elements, d.descendant? e.namePath = some e) := by
  refine ⟨fun path e h => ?_, fun named inner e he => ?_⟩
  · rw [← pathNames_eq]
    exact namePath_of_descendant? h
  · rcases List.mem_append.1 he with he | he
    · exact named.descendant?_namePath he
    · obtain ⟨g, hg, he⟩ := List.mem_flatMap.1 he
      exact named.descendant?_inner hg (inner g hg) he

def stocked : Document where
  materials := [{ name := "clay" }]
  nodeGraphs := [
    { name := "mix", nodes := [{ name := "a", category := "add", type := "float" }]
      outputs := [{ name := "out", type := "float", nodeName := some "a" }] }]
  nodes := [{ name := "a", category := "add", type := "float" }]
  outputs := [{ name := "out", type := "float", nodeName := some "a" }]

/-- In a document with an element of each kind, every path leads back, and more slashes do not matter. -/
theorem namePath_inverts_descendant?_stocked :
    stocked.WellNamed ∧ (∀ g ∈ stocked.nodeGraphs, g.WellNamed) ∧
      ((stocked.elements ++ stocked.nodeGraphs.flatMap NodeGraph.elements).map Element.namePath =
        ["clay", "mix", "a", "out", "mix/a", "mix/out"]) ∧
      (∀ e ∈ stocked.elements ++ stocked.nodeGraphs.flatMap NodeGraph.elements,
        stocked.descendant? e.namePath = some e) ∧
      ∃ e, stocked.descendant? "//mix///out/" = some e ∧ e.namePath = "mix/out" := by
  have named : stocked.WellNamed := by decide
  have inner : ∀ g ∈ stocked.nodeGraphs, g.WellNamed := by decide
  have back := (namePath_inverts_descendant? stocked).2 named inner
  obtain ⟨e, leads⟩ := Option.isSome_iff_exists.1
    (show (stocked.descendant? "//mix///out/").isSome from by decide +kernel)
  have path := (namePath_inverts_descendant? stocked).1 "//mix///out/" e leads
  exact ⟨named, inner, by decide +kernel, back, e, leads, path.trans (by decide +kernel)⟩

end Document

end MaterialGraph
