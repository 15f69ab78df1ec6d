import MaterialGraph.Proofs.Grading

/-!
# Cycles of nodes

A load closes no cycle of nodes where nodes of the documents depend on themselves only as they name each other in one
graph: there composites refuse to close it (`acyclic_of_load`). Otherwise it may: whoever takes an output of the top level
is not asked whether the output depends on it (`self_dependence_closes_cycle`).
-/

namespace MaterialGraph

set_option autoImplicit false

open Build Assembly LoadResult Relation

variable {s t : Recorder} {c c' : Context Recorder} {U : PartId → PartId → Prop} {x y z : PartId} {g h : Handle} {l : Leaf}

/-! ## Links between live nodes -/

def Recorder.Takes (t : Recorder) (g h : Handle) : Prop := t.Links g h ∧ (t.node? h).isSome

theorem Recorder.Links.live (links : t.Links g h) : (t.node? g).isSome :=
  have ⟨_, _, there, _⟩ := links
  there ▸ rfl

/-- Where nodes are only deleted, no node takes another that it did not take before. -/
theorem Build.takes_released (takes : (released Recorder.renderer x l c).system.Takes g h) : c.system.Takes g h := by
  unfold released at takes
  split at takes
  · next k _ =>
    obtain ⟨links, live⟩ := takes
    change (Recorder.act (.delete k) c.system).2.Links g h at links
    change ((Recorder.act (.delete k) c.system).2.node? h).isSome at live
    rw [Recorder.node?_delete] at live
    refine ⟨(Recorder.Links.of_act links).resolve_right nofun, ?_⟩
    split at live
    · cases live
    · exact live
  · exact takes

/-- What a node takes at the end of a load, it took before the load closed. -/
theorem Build.Closes.takes (closes : Closes Recorder.renderer c c') (takes : c'.system.Takes g h) :
    c.system.Takes g h := by
  have released (xs : List PartId) : (releasedAll Recorder.renderer xs c).system.Takes g h → c.system.Takes g h :=
    releasedAll_induction (P := fun d : Context Recorder => d.system.Takes g h → c.system.Takes g h)
      (fun _ before takes => before (takes_released takes)) xs id
  cases closes with
  | released xs => exact released xs takes
  | finished xs => exact released xs takes

/-! ## Nodes of a load -/

/-- What is known of the nodes that a load has created, and of those that are older. -/
structure Sorted (s : Recorder) (U : PartId → PartId → Prop) (c : Context Recorder) : Prop where
  graded : Graded U c
  old : ∀ {g h}, c.system.Takes g h → g.id < s.created → s.Takes g h ∧ h.id < s.created
  owned : ∀ {h}, (c.system.node? h).isSome → s.created ≤ h.id → ∃ x, ownedNode? c.assembly x = some h

theorem Graded.sorted (graded : Graded U c) (steps : Steps Recorder.renderer { system := s } c) (reachable : s.Reachable) :
    Sorted s U c where
  graded := graded
  old {g h} takes before := by
    have history := steps.moves.history .start
    have order := (steps.accounted (accounted_start s)).order
    obtain ⟨⟨n, key, there, bound⟩, live⟩ := takes
    rw [history.node?_eq_of_lt order before] at there
    have links : s.Links g h := ⟨n, key, there, bound⟩
    have older := reachable.lt_of_feeds ⟨g, links⟩
    rw [history.node?_eq_of_lt order older] at live
    exact ⟨⟨links, live⟩, older⟩
  owned {h} live new := by
    have history := steps.moves.history .start
    have account := steps.accounted (accounted_start s)
    have kept := ((history.isSome_node? account.order).1 live).2
    have numbered := (steps.moves.reachable reachable).numbered live
    have made : h ∈ MaterialGraph.created c.journal := history.mem_created.2 ⟨new, numbered⟩
    rw [← account.balance.mem_iff, List.nil_append, List.mem_append] at made
    obtain ⟨x, -, own⟩ := List.mem_filterMap.1 (made.resolve_right kept)
    exact ⟨x, own⟩

namespace Sorted

/-- From an older node on, all is as it was before the load. -/
theorem before (sorted : Sorted s U c) (path : TransGen c.system.Takes g h) (old : g.id < s.created) :
    TransGen s.Takes g h ∧ h.id < s.created := by
  induction path with
  | single takes =>
      obtain ⟨takes, older⟩ := sorted.old takes old
      exact ⟨.single takes, older⟩
  | tail _ takes ih =>
      obtain ⟨path, older⟩ := ih
      obtain ⟨takes, older⟩ := sorted.old takes older
      exact ⟨path.tail takes, older⟩

/-- The leaf of a node comes before the leaves of all nodes on which the node draws. -/
theorem precedes (sorted : Sorted s U c) (trans : ∀ {x y z}, U x y → U y z → U x z)
    (path : TransGen c.system.Takes g h) (new : s.created ≤ h.id) (own : ownedNode? c.assembly x = some g)
    (own' : ownedNode? c.assembly z = some h) : U x z := by
  induction path generalizing z with
  | single takes => exact sorted.graded.linked own takes.1 own'
  | tail path takes ih =>
      have later := Nat.not_lt.1 fun old => Nat.not_lt.2 new (sorted.old takes old).2
      obtain ⟨y, mine⟩ := sorted.owned takes.1.live later
      exact trans (ih later mine) (sorted.graded.linked mine takes.1 own')

/-- A cycle was there before the load. -/
theorem cycle (sorted : Sorted s U c) (trans : ∀ {x y z}, U x y → U y z → U x z) (irrefl : ∀ x, ¬ U x x)
    (path : TransGen c.system.Takes h h) : TransGen s.Takes h h := by
  by_cases old : h.id < s.created
  · exact (sorted.before path old).1
  · obtain ⟨k, -, takes⟩ := TransGen.tail'_iff.1 path
    obtain ⟨x, own⟩ := sorted.owned takes.2 (Nat.not_lt.1 old)
    exact absurd (sorted.precedes trans path (Nat.not_lt.1 old) own own) (irrefl x)

end Sorted

/-! ## Loads -/

/-- A load into a recorder closes no cycle of live nodes, if the nodes of the documents depend on themselves at most
through nodes that name each other in one graph, and no two graphs of the document have the same name. -/
theorem acyclic_of_load (l : Loader) (d : Document) (options : LoadOptions) (fileExists : String → Bool)
    (s : Recorder) (o : Outcome Recorder) (reachable : s.Reachable) (guarded : (l.catalog d).IsGuarded)
    (distinct : (d.nodeGraphs.map (·.name)).Nodup) (loaded : l.load d options fileExists Recorder.renderer s = some o) :
    ∀ h, TransGen o.system.Takes h h → TransGen s.Takes h h := by
  obtain ⟨c, c', changes, charted, closes, system, -⟩ := charted_of_load loaded
  have later : Later c c := ⟨.refl _, List.suffix_refl _⟩
  have graded := changes.graded rfl .refl reachable later charted guarded distinct (.start s) (.start _ s)
  have sorted := graded.sorted changes.steps reachable
  intro h path
  rw [system] at path
  refine sorted.cycle (Outranks.trans charted) (fun x => not_outranks_self charted) ?_
  exact TransGen.mono (fun _ _ => closes.takes) _ _ path

def Recorder.input? (t : Recorder) (g : Handle) (key : InputKey) : Option Bound := (t.node? g).bind (·.bound key)

theorem Recorder.takes_of_input? {key : InputKey} (input : t.input? g key = some (.node h)) (live : (t.node? h).isSome) :
    t.Takes g h :=
  have ⟨n, there, bound⟩ := Option.bind_eq_some_iff.1 input
  ⟨⟨n, key, there, bound⟩, live⟩

/-- A node takes an output of the top level. The node behind it is expanded to a sum, and takes one of two nodes that name
each other. -/
def chained : Document where
  nodeDefs := [
    { name := "ND_add", node := "add", type := "float"
      inputs := [{ name := "in1", type := "float" }, { name := "in2", type := "float" }] },
    { name := "ND_double", node := "double", type := "float", nodeGraph := some "NG_double"
      inputs := [{ name := "of", type := "float" }] }]
  nodeGraphs := [
    { name := "NG_double", nodeDef := some "ND_double"
      nodes := [
        { name := "sum", category := "add", type := "float"
          inputs := [
            { name := "in1", type := "float", interfaceName := some "of" },
            { name := "in2", type := "float", interfaceName := some "of" }] }]
      outputs := [{ name := "out", type := "float", nodeName := some "sum" }] }]
  nodes := [
    { name := "base", category := "add", type := "float"
      inputs := [{ name := "in1", type := "float", nodeName := some "echo" }] },
    { name := "echo", category := "add", type := "float"
      inputs := [{ name := "in1", type := "float", nodeName := some "base" }] },
    { name := "twice", category := "double", type := "float"
      inputs := [{ name := "of", type := "float", nodeName := some "base" }] },
    { name := "last", category := "add", type := "float"
      inputs := [{ name := "in1", type := "float", output := some "mid" }] }]
  outputs := [
    { name := "o", type := "float", nodeName := some "last" },
    { name := "mid", type := "float", nodeName := some "twice" }]

/-- How far the nodes of the document depend on others that do not name them. -/
def chainedDepth (s : Spot) : Nat := if s.node.name = "last" then 2 else if s.node.name = "twice" then 1 else 0

/-- The consumer takes the sum, which takes `base`, as `echo` does. Back from `base` to `echo` nothing is connected, and
there is no cycle. -/
theorem acyclic_of_load_chained :
    ∃ o, Loader.load {} chained {} (fun _ => false) Recorder.renderer {} = some o ∧ o.system.Takes ⟨0⟩ ⟨1⟩ ∧
      o.system.Takes ⟨1⟩ ⟨2⟩ ∧ o.system.Takes ⟨3⟩ ⟨2⟩ ∧ ∀ h, ¬ TransGen o.system.Takes h h := by
  have viewed : (Loader.load {} chained {} (fun _ => false) Recorder.renderer {}).map (fun o =>
      (o.system.input? ⟨0⟩ .color0, o.system.input? ⟨1⟩ .color0, o.system.input? ⟨3⟩ .color0,
        (o.system.node? ⟨1⟩).isSome, (o.system.node? ⟨2⟩).isSome)) =
      some (some (.node ⟨1⟩), some (.node ⟨2⟩), some (.node ⟨2⟩), true, true) := by decide +kernel
  obtain ⟨o, loaded, same⟩ := Option.map_eq_some_iff.1 viewed
  obtain ⟨last, same⟩ := Prod.mk.inj same
  obtain ⟨sum, same⟩ := Prod.mk.inj same
  obtain ⟨echo, same⟩ := Prod.mk.inj same
  obtain ⟨live, live'⟩ := Prod.mk.inj same
  have guarded : (({} : Loader).catalog chained).IsGuarded := Catalog.isGuarded_of_le chainedDepth (by decide +kernel)
  refine ⟨o, loaded, Recorder.takes_of_input? last live, Recorder.takes_of_input? sum live',
    Recorder.takes_of_input? echo live', fun h cycle => ?_⟩
  have before := acyclic_of_load {} chained {} (fun _ => false) {} o .start guarded (by decide) loaded h cycle
  obtain ⟨_, -, -, live⟩ := TransGen.tail'_iff.1 before
  cases live

/-- A node takes the output of the top level behind which it stands itself. -/
def selfFed : Document where
  nodeDefs := [
    { name := "ND_add", node := "add", type := "float"
      inputs := [{ name := "in1", type := "float" }, { name := "in2", type := "float" }] }]
  nodes := [
    { name := "a", category := "add", type := "float"
      inputs := [{ name := "in1", type := "float", output := some "o" }] }]
  outputs := [{ name := "o", type := "float", nodeName := some "a" }]

/-- It is not so that no load closes a cycle: a node may become an input of its own. -/
theorem self_dependence_closes_cycle :
    ¬ ∀ (l : Loader) (d : Document) (options : LoadOptions) (fileExists : String → Bool) (o : Outcome Recorder),
      l.load d options fileExists Recorder.renderer {} = some o → ∀ h, ¬ TransGen o.system.Takes h h := by
  intro never
  have viewed : (Loader.load {} selfFed {} (fun _ => false) Recorder.renderer {}).map (fun o =>
      (o.system.input? ⟨0⟩ .color0, (o.system.node? ⟨0⟩).isSome)) = some (some (.node ⟨0⟩), true) := by decide +kernel
  obtain ⟨o, loaded, same⟩ := Option.map_eq_some_iff.1 viewed
  obtain ⟨input, live⟩ := Prod.mk.inj same
  exact never {} selfFed {} (fun _ => false) o loaded ⟨0⟩ (.single (Recorder.takes_of_input? input live))

end MaterialGraph
