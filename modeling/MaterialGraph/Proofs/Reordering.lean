import MaterialGraph.Proofs.Mirror.Loads
import MaterialGraph.Renderer.Recorder

/-!
# The order of nodes in graphs

* `Document.Reordered` : the same document, with the nodes of some named graphs in another order. The nodes of a graph
  have different names.
* `load_reordered` : a load does the same for it, with any renderer.
-/

namespace MaterialGraph

set_option autoImplicit false

open List (Forall₂)

variable {σ : Type}

/-- The same graph with its nodes, all of different names, in another order. -/
structure NodeGraph.Reordered (g g' : NodeGraph) : Prop where
  rest : g' = { g with nodes := g'.nodes }
  perm : g'.nodes.Perm g.nodes
  distinct : (g.nodes.map Node.name).Nodup

/-- The same document with the nodes of its named graphs in another order. -/
structure Document.Reordered (d d' : Document) : Prop where
  rest : d' = { d with nodeGraphs := d'.nodeGraphs }
  graphs : Forall₂ NodeGraph.Reordered d.nodeGraphs d'.nodeGraphs

/-- Among nodes of different names, the order does not matter to the search for a name. -/
theorem find?_node_eq_of_perm {ns ns' : List Node} (perm : ns'.Perm ns) (distinct : (ns.map Node.name).Nodup)
    (name : String) : (ns'.find? fun n => n.name = name) = ns.find? fun n => n.name = name := by
  induction perm with
  | nil => rfl
  | cons n perm ih =>
      rw [List.find?_cons, List.find?_cons, ih (List.nodup_cons.1 distinct).2]
  | swap n m ns =>
      rw [List.map_cons, List.map_cons, List.nodup_cons] at distinct
      have different : n.name ≠ m.name := fun h => distinct.1 (h ▸ List.mem_cons_self)
      simp only [List.find?_cons]
      split <;> split <;> simp_all
  | trans first second ih₁ ih₂ =>
      rw [ih₁ ((second.map Node.name).nodup_iff.2 distinct), ih₂ distinct]

theorem NodeGraph.Reordered.alike {g g' : NodeGraph} (h : g.Reordered g') : g.Alike g' :=
  ⟨h.rest, h.perm, find?_node_eq_of_perm h.perm h.distinct⟩

theorem Document.Reordered.alike {d d' : Document} (h : d.Reordered d') : d.Alike d' :=
  ⟨h.rest, h.graphs.imp fun _ _ => NodeGraph.Reordered.alike⟩

def Mirror.refl (r : Renderer σ) : Mirror r r where
  label := id
  injective := Function.injective_id
  Sees := Eq
  hasNames := rfl
  create := by
    rintro s _ rfl type
    exact ⟨(Except.map_id ▸ rfl), rfl⟩
  act := by
    rintro s _ rfl a
    rw [a.relabel_id]
    exact ⟨rfl, rfl⟩

/-- The order of nodes in named graphs does not matter to a load: it ends or does not end, hands over the same, leaves
the renderer in the same state, and shows the same calls, remarks and warnings. -/
theorem load_reordered {l l' : Loader} {d d' : Document} (documents : d.Reordered d')
    (libraries : Option.Rel Document.Reordered l.library l'.library)
    (loaders : l' = { l with library := l'.library }) (options : LoadOptions) (fileExists : String → Bool)
    (r : Renderer σ) (s : σ) :
    Option.Rel (fun o o' => o'.result = o.result ∧ o'.system = o.system ∧ l'.shown o' = l.shown o)
      (l.load d options fileExists r s) (l'.load d' options fileExists r s) := by
  have alike : (l.catalog d).Alike (l'.catalog d') :=
    ⟨documents.alike, rel_mono (fun _ _ => Document.Reordered.alike) libraries⟩
  refine rel_mono ?_ (Loader.load_mirrors (Mirror.refl r) rfl loaders alike options fileExists rfl)
  rintro o o' ⟨result, system, shown⟩
  refine ⟨result.trans o.result.relabel_id, system.symm, shown.trans ?_⟩
  exact (List.map_congr_left fun e _ => e.relabel_id).trans (List.map_id _)

def oneGraph (nodes : List Node) : Document where
  nodeDefs := [
    { name := "ND_add", node := "add", type := "float"
      inputs := [{ name := "in1", type := "float" }, { name := "in2", type := "float" }] }]
  nodeGraphs := [{ name := "g", nodes, outputs := [{ name := "o", type := "float", nodeName := some "a" }] }]

def sumA : Node where
  name := "a"
  category := "add"
  type := "float"
  inputs := [{ name := "in1", type := "float", nodeName := some "b" }]

def constantB : Node where
  name := "b"
  category := "constant"
  type := "float"

/-- The value of a node is connected also where the node comes after the one that takes it. -/
theorem load_reordered_oneGraph :
    ∃ o o', Loader.load {} (oneGraph [constantB, sumA]) {} (fun _ => false) Recorder.renderer {} = some o ∧
      Loader.load {} (oneGraph [sumA, constantB]) {} (fun _ => false) Recorder.renderer {} = some o' ∧
        ((o.system.node? ⟨0⟩).bind fun n => n.bound .color0) = some (.node ⟨1⟩) ∧ o'.result = o.result ∧
          o'.system = o.system ∧ Loader.shown {} o' = Loader.shown {} o := by
  have evaluated : (Loader.load {} (oneGraph [constantB, sumA]) {} (fun _ => false) Recorder.renderer {}).map
      (fun o => (o.system.node? ⟨0⟩).bind fun n => n.bound .color0) = some (some (.node ⟨1⟩)) := by
    decide +kernel
  have graphs : (oneGraph [constantB, sumA]).Reordered (oneGraph [sumA, constantB]) :=
    ⟨rfl, .cons ⟨rfl, .swap _ _ _, by decide⟩ .nil⟩
  have noLibrary : Option.Rel Document.Reordered ({} : Loader).library ({} : Loader).library := .none
  obtain ⟨none, -⟩ | ⟨o, o', loaded, loaded', same⟩ := rel_none_or_some
    (load_reordered graphs noLibrary rfl {} (fun _ => false) Recorder.renderer {})
  · rw [none] at evaluated
    cases evaluated
  · rw [loaded] at evaluated
    exact ⟨o, o', loaded, loaded', Option.some.inj evaluated, same⟩

end MaterialGraph
