import Mathlib.Algebra.Order.BigOperators.Group.List
import Mathlib.Algebra.Order.Ring.Nat
import Mathlib.Data.Finset.Card
import Mathlib.Data.Finset.Filter
import MaterialGraph.Proofs.Forest

/-!
# How deep a build goes

To ask a composite for a child can lead to other composites. Three things bound the depth of these ways.

* A free-standing graph that is under way is not entered again, so fewer graphs are idle below it.
* A node of the top level that has been built is not built again, so fewer nodes are missing below it.
* Otherwise a way goes on from one site of the documents to another (`Leads`): from a graph to the graphs that it
  instantiates and to the nodes whose outputs at the top level it takes, and from a node to the graph that implements
  it. If no site leads back to itself, the sites that are left get fewer.

`effort` puts the three together, in this order. It gets smaller wherever a build goes deeper (`effort_lt_of_leads`,
`effort_lt_of_made`, `effort_lt_of_entered`), it never grows while a build goes on (`effort_le`), and the depth that is
granted to a build is larger (`effort_lt_depthBound`).
-/

namespace MaterialGraph

set_option autoImplicit false

open Build Assembly Relation

/-! ## Sums -/

/-- A sum of numbers that do not grow, of which one falls. -/
theorem sum_map_add_le {α : Type} {f g : α → Nat} {l : List α} {x : α} {k : Nat} (le : ∀ y ∈ l, f y ≤ g y) (hx : x ∈ l)
    (falls : f x + k ≤ g x) : (l.map f).sum + k ≤ (l.map g).sum := by
  induction l with
  | nil => cases hx
  | cons y l ih =>
      obtain ⟨hy, rest⟩ := List.forall_mem_cons.1 le
      rw [List.map_cons, List.map_cons, List.sum_cons, List.sum_cons]
      rcases List.mem_cons.1 hx with rfl | hx
      · have rest : (l.map f).sum ≤ (l.map g).sum := List.sum_le_sum rest
        omega
      · have := ih rest hx
        omega

/-! ## Sites -/

/-- A site of the documents where a build can be: a graph, or a node of the top level. -/
inductive Site where
  | graph (g : Graph)
  | node (n : Node)
deriving DecidableEq

namespace Catalog

/-- The element that says what a declared input of a node is bound to. -/
def elementOf (c : Catalog) (g : Graph) (n : Node) (i : Input) : Input :=
  match n.input? i.name with
  | none => i
  | some element =>
    match element.interfaceName? with
    | none => element
    | some interface => ((g.nodeDef? c).bind (·.input? interface)).getD i

/-- The sites where a build can go: the named graphs, and the nodes of the top level. -/
def sites (c : Catalog) : List Site :=
  c.documents.flatMap (fun d => d.nodeGraphs.map fun g => .graph (.named g)) ++ c.document.nodes.map .node

def expansion? (c : Catalog) (n : Node) : Option Site :=
  if Recipe.of n = .ok .expand then ((c.nodeDefOf? n).bind c.implementation?).map fun h => .graph (.named h) else none

/-- The nodes of the top level whose outputs a node of a graph takes. -/
def taken (c : Catalog) (g : Graph) (n : Node) : List Site :=
  (((c.nodeDefOf? n).map NodeDef.inputs).getD []).filterMap fun i =>
    let element := c.elementOf g n i
    if nonEmpty element.nodeGraph = none then
      (element.output?.bind (topProducer? c)).map fun (_, producer, _) => .node producer
    else none

/-- The sites to which building one leads: from a graph to those that its nodes are expanded to and to the nodes of the
top level that they take, and from a node to the graph that it is expanded to. -/
def next (c : Catalog) : Site → List Site
  | .graph g => g.nodes.flatMap fun n => (c.expansion? n).toList ++ c.taken g n
  | .node n => (c.expansion? n).toList

def Leads (c : Catalog) (s t : Site) : Prop := t ∈ c.next s

variable {c : Catalog} {s t : Site}

theorem mem_of_nodeGraph? {d : Document} {name : String} {g : NodeGraph} (h : d.nodeGraph? name = some g) :
    g ∈ d.nodeGraphs ∧ g.name = name :=
  ⟨List.mem_of_find?_eq_some h, by simpa using List.find?_some h⟩

theorem mem_of_documentNode? {d : Document} {name : String} {n : Node} (h : d.node? name = some n) :
    n ∈ d.nodes ∧ n.name = name :=
  ⟨List.mem_of_find?_eq_some h, by simpa using List.find?_some h⟩

theorem mem_sites_of_implementation? {nd : NodeDef} {g : NodeGraph} (h : c.implementation? nd = some g) :
    Site.graph (.named g) ∈ c.sites := by
  have mem {d : Document} (hd : d ∈ c.documents) (hg : g ∈ d.nodeGraphs) : Site.graph (.named g) ∈ c.sites :=
    List.mem_append_left _ (List.mem_flatMap.2 ⟨d, hd, List.mem_map.2 ⟨g, hg, rfl⟩⟩)
  unfold implementation? at h
  split at h
  · obtain ⟨d, hd, found⟩ := List.exists_of_findSome?_eq_some h
    exact mem hd (mem_of_nodeGraph? found).1
  · obtain ⟨d, hd, found⟩ := List.exists_of_findSome?_eq_some h
    exact mem hd (List.mem_of_find?_eq_some found)

theorem node?_of_topProducer? {output : String} {o : Output} {n : Node} {nd : NodeDef}
    (h : topProducer? c output = some (o, n, nd)) : c.document.node? n.name = some n := by
  obtain ⟨o', -, h⟩ := Option.bind_eq_some_iff.1 h
  obtain ⟨n', produces, h⟩ := Option.bind_eq_some_iff.1 h
  obtain ⟨nd', -, h⟩ := Option.bind_eq_some_iff.1 h
  cases h
  obtain ⟨name, -, found⟩ := Option.bind_eq_some_iff.1 produces
  rw [(mem_of_documentNode? found).2]
  exact found

theorem expansion?_eq {n : Node} {h : NodeGraph} (recipe : Recipe.of n = .ok .expand)
    (implementation : (c.nodeDefOf? n).bind c.implementation? = some h) :
    c.expansion? n = some (.graph (.named h)) := by
  rw [expansion?, if_pos recipe, implementation]
  rfl

theorem Leads.instantiates {g : Graph} {n : Node} {h : NodeGraph} (node : n ∈ g.nodes)
    (recipe : Recipe.of n = .ok .expand) (implementation : (c.nodeDefOf? n).bind c.implementation? = some h) :
    c.Leads (.graph g) (.graph (.named h)) :=
  List.mem_flatMap.2 ⟨n, node, List.mem_append_left _ (by
    rw [expansion?_eq recipe implementation]
    exact List.mem_singleton_self _)⟩

theorem Leads.implements {n : Node} {h : NodeGraph} (recipe : Recipe.of n = .ok .expand)
    (implementation : (c.nodeDefOf? n).bind c.implementation? = some h) : c.Leads (.node n) (.graph (.named h)) := by
  rw [Leads, next, expansion?_eq recipe implementation]
  exact List.mem_singleton_self _

theorem Leads.takes {g : Graph} {n producer : Node} {nd pd : NodeDef} {i : Input} {output : String} {o : Output}
    (node : n ∈ g.nodes) (definition : c.nodeDefOf? n = some nd) (declared : i ∈ nd.inputs)
    (named : (c.elementOf g n i).output? = some output) (top : nonEmpty (c.elementOf g n i).nodeGraph = none)
    (produces : topProducer? c output = some (o, producer, pd)) : c.Leads (.graph g) (.node producer) := by
  refine List.mem_flatMap.2 ⟨n, node, List.mem_append_right _ ?_⟩
  rw [taken, definition]
  refine List.mem_filterMap.2 ⟨i, declared, ?_⟩
  dsimp only
  rw [if_pos top, named, Option.bind_some, produces]
  rfl

theorem mem_sites_of_expansion? {n : Node} (h : c.expansion? n = some t) : t ∈ c.sites := by
  unfold expansion? at h
  split at h
  · obtain ⟨g, implementation, rfl⟩ := Option.map_eq_some_iff.1 h
    obtain ⟨nd, -, found⟩ := Option.bind_eq_some_iff.1 implementation
    exact mem_sites_of_implementation? found
  · cases h

theorem mem_sites_of_taken {g : Graph} {n : Node} (h : t ∈ c.taken g n) : t ∈ c.sites := by
  obtain ⟨i, -, taken⟩ := List.mem_filterMap.1 h
  dsimp only at taken
  split at taken
  · obtain ⟨⟨o, producer, nd⟩, produces, rfl⟩ := Option.map_eq_some_iff.1 taken
    obtain ⟨output, -, produces⟩ := Option.bind_eq_some_iff.1 produces
    exact List.mem_append_right _ (List.mem_map.2 ⟨_, (mem_of_documentNode? (node?_of_topProducer? produces)).1, rfl⟩)
  · cases taken

theorem Leads.mem_sites (h : c.Leads s t) : t ∈ c.sites := by
  cases s with
  | graph g =>
      obtain ⟨n, -, h⟩ := List.mem_flatMap.1 h
      rcases List.mem_append.1 h with h | h
      · exact mem_sites_of_expansion? (Option.mem_toList.1 h)
      · exact mem_sites_of_taken h
  | node n => exact mem_sites_of_expansion? (Option.mem_toList.1 h)

/-- No site leads back to itself if each leads to smaller ones only. -/
theorem acyclic_of_lt (f : Site → Nat) (smaller : ∀ s ∈ c.sites, ∀ t ∈ c.next s, f t < f s) (t : Site) :
    ¬ TransGen c.Leads t t := by
  have falls {s u : Site} (h : TransGen c.Leads s u) (hs : s ∈ c.sites) : u ∈ c.sites ∧ f u < f s := by
    induction h with
    | single h => exact ⟨h.mem_sites, smaller _ hs _ h⟩
    | tail _ h ih => exact ⟨h.mem_sites, (smaller _ ih.1 _ h).trans ih.2⟩
  intro h
  have ht : t ∈ c.sites := by
    cases h with
    | single h => exact h.mem_sites
    | tail _ h => exact h.mem_sites
  exact Nat.lt_irrefl _ (falls h ht).2

open Classical in
noncomputable def rank (c : Catalog) (s : Site) : Nat := (c.sites.toFinset.filter (TransGen c.Leads s)).card

theorem rank_le (c : Catalog) (s : Site) : c.rank s ≤ c.sites.length := by
  classical
  exact (Finset.card_filter_le _ _).trans c.sites.toFinset_card_le

/-- What a site leads to leads to fewer sites, unless it leads back to itself. -/
theorem rank_lt (acyclic : ¬ TransGen c.Leads t t) (h : Leads c s t) : c.rank t < c.rank s := by
  classical
  refine Finset.card_lt_card (Finset.ssubset_iff_of_subset (fun u hu => ?_) |>.2 ⟨t, ?_, ?_⟩)
  · rw [Finset.mem_filter] at hu ⊢
    exact ⟨hu.1, .head h hu.2⟩
  · rw [Finset.mem_filter, List.mem_toFinset]
    exact ⟨h.mem_sites, .single h⟩
  · rw [Finset.mem_filter]
    exact fun ht => acyclic ht.2

end Catalog

/-! ## Effort -/

namespace Assembly

def Busy (a : Assembly) (graph : String) : Prop := ∃ id, a.freeStanding[graph]? = some (.building id)

def Made (a : Assembly) (node : String) : Prop := (a.top.bind fun t => a.child? t node).isSome

/-- What is under way or built at the top level of an assembly is so in a later one. -/
structure Ahead (a a' : Assembly) : Prop where
  busy : ∀ {graph}, a.Busy graph → a'.Busy graph
  made : ∀ {node}, a.Made node → a'.Made node

theorem Ahead.refl (a : Assembly) : Ahead a a := ⟨fun h => h, fun h => h⟩

end Assembly

open Classical in
/-- The number of free-standing graphs of a document that are not under way. -/
noncomputable def idle (d : Document) (a : Assembly) : Nat :=
  (d.nodeGraphs.map fun g => if a.Busy g.name then 0 else 1).sum

open Classical in
/-- The number of nodes of the top level that have not been built. -/
noncomputable def missing (d : Document) (a : Assembly) : Nat :=
  (d.nodes.map fun n => if a.Made n.name then 0 else 1).sum

noncomputable def effort (c : Catalog) (a : Assembly) (s : Site) : Nat :=
  (idle c.document a * (c.document.nodes.length + 1) + missing c.document a) * (c.sites.length + 1) + c.rank s

section

variable {c : Catalog} {a a' : Assembly} {s t : Site}

theorem indicator_le {p q : Prop} [Decidable p] [Decidable q] (h : p → q) :
    (if q then 0 else 1) ≤ if p then 0 else 1 := by
  by_cases hp : p
  · rw [if_pos hp, if_pos (h hp)]
  · rw [if_neg hp]
    split <;> decide

theorem sum_map_indicator_le {α : Type} (f : α → Nat) (l : List α) (hf : ∀ x, f x ≤ 1) : (l.map f).sum ≤ l.length := by
  induction l with
  | nil => exact Nat.le_refl 0
  | cons x l ih =>
      rw [List.map_cons, List.sum_cons, List.length_cons]
      have := hf x
      omega

theorem idle_le (d : Document) (ahead : a.Ahead a') : idle d a' ≤ idle d a := by
  classical
  exact List.sum_le_sum fun _ _ => indicator_le ahead.busy

theorem missing_le (d : Document) (ahead : a.Ahead a') : missing d a' ≤ missing d a := by
  classical
  exact List.sum_le_sum fun _ _ => indicator_le ahead.made

theorem missing_le_length (d : Document) (a : Assembly) : missing d a ≤ d.nodes.length :=
  sum_map_indicator_le _ _ fun _ => by split <;> omega

theorem idle_le_length (d : Document) (a : Assembly) : idle d a ≤ d.nodeGraphs.length :=
  sum_map_indicator_le _ _ fun _ => by split <;> omega

/-- While a build goes on, there is never more to do from a site. -/
theorem effort_le (ahead : a.Ahead a') (s : Site) : effort c a' s ≤ effort c a s := by
  refine Nat.add_le_add_right (Nat.mul_le_mul_right _ (Nat.add_le_add (Nat.mul_le_mul_right _ ?_) ?_)) _
  · exact idle_le _ ahead
  · exact missing_le _ ahead

theorem effort_lt_of_leads (ahead : a.Ahead a') (acyclic : ¬ TransGen c.Leads t t) (h : c.Leads s t) :
    effort c a' t < effort c a s :=
  (effort_le ahead t).trans_lt (Nat.add_lt_add_left (Catalog.rank_lt acyclic h) _)

/-- If there is less to do at the top level, it does not matter which sites are left. -/
theorem effort_lt (s t : Site) (less : idle c.document a' * (c.document.nodes.length + 1) + missing c.document a' <
    idle c.document a * (c.document.nodes.length + 1) + missing c.document a) : effort c a' t < effort c a s := by
  have rank := c.rank_le t
  have levels := Nat.mul_le_mul_right (c.sites.length + 1) (Nat.succ_le_of_lt less)
  rw [Nat.succ_mul] at levels
  unfold effort
  omega

/-- Once another node of the top level has been built, there is less to do. -/
theorem effort_lt_of_made (ahead : a.Ahead a') {n : Node} (node : n ∈ c.document.nodes) (absent : ¬ a.Made n.name)
    (there : a'.Made n.name) (s t : Site) : effort c a' t < effort c a s := by
  classical
  refine effort_lt s t ?_
  have fewer : missing c.document a' + 1 ≤ missing c.document a := by
    refine sum_map_add_le (fun _ _ => indicator_le ahead.made) node ?_
    rw [if_pos there, if_neg absent]
  have := Nat.mul_le_mul_right (c.document.nodes.length + 1) (idle_le c.document ahead)
  omega

/-- Below a free-standing graph that has just been entered, there is less to do. -/
theorem effort_lt_of_entered (ahead : a.Ahead a') {g : NodeGraph} (graph : g ∈ c.document.nodeGraphs)
    (resting : ¬ a.Busy g.name) (entered : a'.Busy g.name) (s t : Site) : effort c a' t < effort c a s := by
  classical
  refine effort_lt s t ?_
  have fewer : idle c.document a' + 1 ≤ idle c.document a := by
    refine sum_map_add_le (fun _ _ => indicator_le ahead.busy) graph ?_
    rw [if_pos entered, if_neg resting]
  have levels := Nat.mul_le_mul_right (c.document.nodes.length + 1) fewer
  rw [Nat.succ_mul] at levels
  have := missing_le_length c.document a'
  omega

theorem length_sites (c : Catalog) :
    c.sites.length = (c.documents.map fun d => d.nodeGraphs.length).sum + c.document.nodes.length := by
  simp [Catalog.sites, List.length_flatMap]

theorem foldl_graphs (l : List Document) (k : Nat) :
    l.foldl (fun k d => k + d.nodeGraphs.length) k = k + (l.map fun d => d.nodeGraphs.length).sum := by
  induction l generalizing k with
  | nil => rfl
  | cons d l ih => rw [List.foldl_cons, ih, List.map_cons, List.sum_cons, Nat.add_assoc]

/-- The depth that is granted to a build is always enough. -/
theorem effort_lt_depthBound (c : Catalog) (a : Assembly) (s : Site) : effort c a s < depthBound c := by
  have graphs : c.document.nodeGraphs.length ≤ (c.documents.map fun d => d.nodeGraphs.length).sum := by
    rw [Catalog.documents, List.map_cons, List.sum_cons]
    exact Nat.le_add_right _ _
  have sites := length_sites c
  have rank := c.rank_le s
  have bound : effort c a s < (c.document.nodeGraphs.length + 1) * (c.document.nodes.length + 1) *
      (c.sites.length + 1) := by
    have top : idle c.document a * (c.document.nodes.length + 1) + missing c.document a + 1 ≤
        (c.document.nodeGraphs.length + 1) * (c.document.nodes.length + 1) := by
      rw [Nat.succ_mul]
      have := Nat.mul_le_mul_right (c.document.nodes.length + 1) (idle_le_length c.document a)
      have := missing_le_length c.document a
      omega
    have levels := Nat.mul_le_mul_right (c.sites.length + 1) top
    rw [Nat.succ_mul] at levels
    unfold effort
    omega
  refine bound.trans_le (Nat.le_trans ?_ (Nat.le_max_right _ _))
  rw [foldl_graphs, Nat.zero_add, Nat.mul_comm (_ * _), ← Nat.mul_assoc, Nat.mul_right_comm]
  refine Nat.mul_le_mul (Nat.mul_le_mul ?_ ?_) ?_ <;> omega

end

end MaterialGraph
