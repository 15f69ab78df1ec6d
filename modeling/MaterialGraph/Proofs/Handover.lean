import MaterialGraph.Proofs.Ownership
import MaterialGraph.Proofs.Recorder
import MaterialGraph.Proofs.Walk

/-!
# Who owns the nodes after a load

* `Loads.perm_created` : what is handed over and what has been deleted is what has been created.
* `Recorder.release_all` : live nodes can be deleted one after the other, and nothing else changes.
* `load_partitions_handles` : a load hands over or deletes each node that it creates, and its caller can give all back.
-/

namespace MaterialGraph

set_option autoImplicit false

open Build Assembly

/-! ## What is handed over -/

namespace LoadResult

theorem mem_left {a : Assembly} {parts : List PartId} {x : PartId} :
    x ∈ left a parts ↔ x < a.size ∧ x ∉ a.reachable (parts ++ a.shared) := by
  simp [left]

/-- The nodes of all parts but those left behind are handed over. -/
theorem perm_nodes (a : Assembly) (parts : List PartId) (roots : PerKind (Option PartId)) :
    ((List.range a.size).filterMap fun x => if x ∈ left a parts then none else ownedNode? a x).Perm
      (ofAssembly a parts roots).nodes := by
  let reached := a.reachable (parts ++ a.shared)
  have kept : ((List.range a.size).filterMap fun x => if x ∈ left a parts then none else ownedNode? a x) =
      ((List.range a.size).filter (reached.contains ·)).filterMap (ownedNode? a) := by
    rw [List.filterMap_filter]
    refine List.filterMap_congr fun x hx => ?_
    by_cases h : x ∈ reached
    · rw [if_neg fun hl => (mem_left.1 hl).2 h, if_pos (by simpa using h)]
    · rw [if_pos (mem_left.2 ⟨List.mem_range.1 hx, h⟩), if_neg (by simpa using h)]
  have inside : (ofAssembly a parts roots).nodes = (reached.filter (· < a.size)).filterMap (ownedNode? a) := by
    rw [List.filterMap_filter]
    refine List.filterMap_congr fun x _ => ?_
    by_cases h : x < a.size
    · rw [if_pos (by simpa using h)]
    · rw [if_neg (by simpa using h), ownedNode?, leaf?, part?_eq_none.2 (Nat.not_lt.1 h)]
      rfl
  rw [kept, inside]
  refine List.Perm.filterMap _ ((List.perm_ext_iff_of_nodup (List.nodup_range.filter _)
    ((a.nodup_reachable _).filter _)).2 fun x => ?_)
  simp [and_comm, reached]

end LoadResult

namespace Build

variable {σ : Type} {r : Renderer σ} {c c' : Context σ}

theorem size_releasedAll (xs : List PartId) (c : Context σ) :
    (releasedAll r xs c).assembly.size = c.assembly.size :=
  releasedAll_induction (P := fun d => d.assembly.size = c.assembly.size)
    (fun leaf same => (rebinds_released leaf).size.trans same) xs rfl

theorem owned_releasedAll (xs : List PartId) (c : Context σ) :
    owned (releasedAll r xs c).assembly =
      (List.range c.assembly.size).filterMap fun x =>
        if x ∈ xs then none else LoadResult.ownedNode? c.assembly x := by
  rw [owned, size_releasedAll]
  exact List.filterMap_congr fun x _ => ownedNode?_releasedAll xs c x

/-- At the end of a load the owned nodes are those that are handed over. -/
theorem Loads.perm_owned {W : Env σ} {s : σ} {result : LoadResult} (h : Loads W { system := s } result c') :
    (owned c'.assembly).Perm result.nodes := by
  cases h with
  | nothing => exact .refl _
  | @unresolved _ c₁ w works =>
      rw [owned_releasedAll]
      refine .of_eq (List.filterMap_eq_nil_iff.2 fun x hx => ?_)
      rw [if_pos (by simpa using hx)]
  | @handOver harvest c₁ e works resolves message =>
      rw [Context.push_assembly, owned_releasedAll]
      exact LoadResult.perm_nodes c₁.assembly harvest.parts harvest.roots

theorem accounted_start (s : σ) : Accounted [] ({ system := s } : Context σ) where
  balance := .refl _
  held := nofun
  order := trivial
  living := trivial
  native := nofun
  surface := nofun

theorem Accounted.releasedAll (xs : List PartId) (acc : Accounted [] c) : Accounted [] (releasedAll r xs c) := by
  induction xs generalizing c with
  | nil => exact acc
  | cons x xs ih =>
      rw [Build.releasedAll]
      cases leaf : c.assembly.leaf? x with
      | some l => exact ih (acc.released leaf)
      | none => exact ih acc

theorem Loads.accounted {W : Env σ} {s : σ} {result : LoadResult} (h : Loads W { system := s } result c') :
    Accounted [] c' := by
  have start := accounted_start s
  cases h with
  | nothing => exact start.push (.warning _)
  | unresolved works => exact ((works.steps.accounted start).push (.warning _)).releasedAll _
  | handOver works _ message => exact ((works.steps.accounted start).releasedAll _).push message

/-- Each created node is handed over or has been deleted. -/
theorem Loads.perm_created {W : Env σ} {s : σ} {result : LoadResult} (h : Loads W { system := s } result c') :
    (result.nodes ++ deleted c'.journal).Perm (created c'.journal) :=
  (h.perm_owned.symm.append_right _).trans h.accounted.balance

/-- Where no node is created twice, those that are handed over are those that have been created and not deleted. -/
theorem Loads.mem_nodes_iff {W : Env σ} {s : σ} {result : LoadResult} {h : Handle}
    (loads : Loads W { system := s } result c') (once : (created c'.journal).Nodup) :
    h ∈ result.nodes ↔ h ∈ created c'.journal ∧ h ∉ deleted c'.journal := by
  have disjoint := (List.nodup_append.1 (loads.perm_created.nodup_iff.2 once)).2.2
  rw [← loads.perm_created.mem_iff, List.mem_append]
  constructor
  · exact fun hh => ⟨.inl hh, fun hd => disjoint h hh h hd rfl⟩
  · rintro ⟨hh, hd⟩
    exact hh.resolve_right hd

theorem Loads.history {W : Env σ} {s : σ} {result : LoadResult} (h : Loads W { system := s } result c') :
    History W.renderer s c'.journal c'.system :=
  h.moves.history .start

end Build

/-! ## Giving everything back -/

namespace Recorder

open LoadResult

/-- Live nodes can be deleted one after the other, and nothing else changes. -/
theorem release_all {hs : List Handle} (nodup : hs.Nodup) {s : Recorder} (live : ∀ h ∈ hs, (s.node? h).isSome) :
    ∃ t events, deleteAll renderer hs s = (.ok (), t, events) ∧
      ∀ g, t.node? g = if g ∈ hs then none else s.node? g := by
  induction hs generalizing s with
  | nil => exact ⟨s, [], rfl, fun g => by simp⟩
  | cons h hs ih =>
      have obeyed : (act (.delete h) s).1 = .ok () := delete_ok (live h List.mem_cons_self)
      have others : ∀ g ∈ hs, ((act (.delete h) s).2.node? g).isSome := by
        intro g hg
        have hne : g ≠ h := fun e => (List.nodup_cons.1 nodup).1 (e ▸ hg)
        rw [node?_delete, if_neg hne]
        exact live g (List.mem_cons_of_mem _ hg)
      obtain ⟨t, events, rest, gone⟩ := ih (List.nodup_cons.1 nodup).2 others
      refine ⟨t, .acted (.delete h) (.ok ()) :: events, ?_, fun g => ?_⟩
      · have obeyed' : renderer.act (.delete h) s = (.ok (), (act (.delete h) s).2) := Prod.ext obeyed rfl
        rw [deleteAll, obeyed']
        dsimp only
        rw [rest]
      · rw [gone g, node?_delete]
        by_cases hg : g = h
        · simp [hg]
        · simp [hg]

end Recorder

/-- A load hands over or deletes, once, each node that it creates, and names no other. So a recorder has the nodes again
that it had before the load, once the result is released. -/
theorem load_partitions_handles (l : Loader) (d : Document) (options : LoadOptions) (fileExists : String → Bool) :
    (∀ {σ : Type} (r : Renderer σ) (s : σ) (o : Outcome σ), r.Fresh s → l.load d options fileExists r s = some o →
      (o.result.nodes ++ deleted o.journal).Perm (created o.journal) ∧
      (o.result.nodes ++ deleted o.journal).Nodup ∧
      ∀ pre e post, o.journal = pre ++ e :: post → ∀ h ∈ e.names, h ∈ created pre) ∧
    ∀ (s : Recorder) (o : Outcome Recorder), s.Reachable →
      l.load d options fileExists Recorder.renderer s = some o →
      ∃ t events, o.result.release Recorder.renderer o.system = (.ok (), t, events) ∧
        ∀ h, t.node? h = s.node? h := by
  constructor
  · intro σ r s o fresh loaded
    obtain ⟨c, loads, -, hj⟩ := loads_of_load loaded
    have hc : (created o.journal).Perm (created c.journal) := by
      rw [hj, created, List.filterMap_reverse]
      exact List.reverse_perm _
    have hd : (deleted o.journal).Perm (deleted c.journal) := by
      rw [hj, deleted, List.filterMap_reverse]
      exact List.reverse_perm _
    have parted : (o.result.nodes ++ deleted o.journal).Perm (created o.journal) :=
      (hd.append_left _).trans (loads.perm_created.trans hc.symm)
    have once : (created c.journal).Nodup := fresh _ _ loads.history
    refine ⟨parted, parted.nodup_iff.2 (hc.nodup_iff.2 once), fun pre e post split => ?_⟩
    exact loads.accounted.order.of_reverse (hj.symm.trans split)
  · intro s o reachable loaded
    obtain ⟨c, loads, hs, -⟩ := loads_of_load loaded
    have order := loads.accounted.order
    have history : History Recorder.renderer s c.journal c.system := loads.history
    have once : (created c.journal).Nodup := Recorder.fresh s _ _ history
    have nodup : o.result.nodes.Nodup := (List.nodup_append.1 (loads.perm_created.nodup_iff.2 once)).1
    have handed (h : Handle) := loads.mem_nodes_iff once (h := h)
    obtain ⟨t, events, released, gone⟩ := Recorder.release_all nodup (s := c.system) fun h hh =>
      (history.isSome_node? order).2 ⟨.inr ((handed h).1 hh).1, ((handed h).1 hh).2⟩
    refine ⟨t, events, hs ▸ released, fun h => ?_⟩
    rw [gone]
    rcases Nat.lt_or_ge h.id s.created with old | new
    · have kept : h ∉ o.result.nodes := fun hh =>
        Nat.not_le.2 old (history.mem_created.1 ((handed h).1 hh).1).1
      rw [if_neg kept]
      exact history.node?_eq_of_lt order old
    · rw [reachable.node?_eq_none new]
      by_cases hh : h ∈ o.result.nodes
      · rw [if_pos hh]
      · rw [if_neg hh, ← Option.not_isSome_iff_eq_none, history.isSome_node? order, reachable.node?_eq_none new]
        rintro ⟨made | made, hd⟩
        · cases made
        · exact hh ((handed h).2 ⟨made, hd⟩)

/-- The sum in the graph of `thing` takes the value of `bump`, which stands for a constant until the height of `x`
replaces that constant by another. -/
def replacedConstant : Document where
  nodeDefs := [
    { name := "ND_add", node := "add", type := "float"
      inputs := [{ name := "in1", type := "float" }, { name := "in2", type := "float" }] },
    { name := "ND_displacement", node := "displacement", type := "displacementshader"
      inputs := [{ name := "displacement", type := "float" }] },
    { name := "ND_thing", node := "thing", type := "float", nodeGraph := some "NG_thing"
      inputs := [{ name := "height", type := "float", value := some "0.5" }] }]
  nodeGraphs := [
    { name := "NG_thing", nodeDef := some "ND_thing"
      nodes := [
        { name := "sum", category := "add", type := "float"
          inputs := [{ name := "in1", type := "float", nodeName := some "bump" }] },
        { name := "bump", category := "displacement", type := "displacementshader"
          inputs := [{ name := "displacement", type := "float", interfaceName := some "height" }] }]
      outputs := [{ name := "out", type := "float", nodeName := some "sum" }] }]
  nodes := [
    { name := "x", category := "thing", type := "float"
      inputs := [{ name := "height", type := "float", value := some "0.75" }] }]
  outputs := [{ name := "o", type := "float", nodeName := some "x" }]

/-- Three nodes are created, one is deleted on the way, and two are handed over and then released. -/
theorem load_partitions_handles_replacedConstant :
    ∃ o, Loader.load {} replacedConstant {} (fun _ => false) Recorder.renderer {} = some o ∧
      o.result.nodes = [⟨2⟩, ⟨0⟩, ⟨3⟩] ∧ deleted o.journal = [⟨1⟩] ∧
      (o.result.nodes ++ deleted o.journal).Perm (created o.journal) ∧
      ∃ t events, o.result.release Recorder.renderer o.system = (.ok (), t, events) ∧
        ∀ h, t.node? h = Recorder.node? {} h := by
  have parted := load_partitions_handles {} replacedConstant {} fun _ => false
  have evaluated : (Loader.load {} replacedConstant {} (fun _ => false) Recorder.renderer {}).map
      (fun o => (o.result.nodes, deleted o.journal)) = some ([⟨2⟩, ⟨0⟩, ⟨3⟩], [⟨1⟩]) := by decide +kernel
  obtain ⟨o, loaded, same⟩ := Option.map_eq_some_iff.1 evaluated
  obtain ⟨nodes, gone⟩ := Prod.mk.inj same
  have account := parted.1 Recorder.renderer {} o (Recorder.fresh _) loaded
  exact ⟨o, loaded, nodes, gone, account.1, parted.2 {} o .start loaded⟩

end MaterialGraph
