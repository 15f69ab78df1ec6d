import MaterialGraph.Proofs.Build.Groups
import MaterialGraph.Proofs.Replay
import MaterialGraph.Renderer.Recorder

/-!
# Every child is built once

A part that is built for a node is noted as a child at once. As long as no composite is asked for a child while it is
giving one, no name gets a second child, since what a composite has is given again.

* `Run.notedOnce` : a run in a composite notes no child twice.
* `each_child_once` : a load that stays calm notes each child once, so children never change.
* `reentrant_notes_twice` : a composite that is asked for a child while it is giving it builds it twice.
-/

namespace MaterialGraph

set_option autoImplicit false

open Build Assembly

variable {σ : Type} {r : Renderer σ} {W : Env σ} {c c' : Context σ}

/-- No child has been noted twice, and each that has been noted is there. -/
structure NotedOnce (c : Context σ) : Prop where
  nodup : (noted c.journal).Nodup
  there : ∀ {id name}, (id, name) ∈ noted c.journal → (c.assembly.child? id name).isSome

namespace NotedOnce

theorem start (s : σ) : NotedOnce ({ system := s } : Context σ) := ⟨List.nodup_nil, nofun⟩

/-- What notes no child changes nothing. -/
theorem kept (once : NotedOnce c) (same : noted c'.journal = noted c.journal)
    (more : Extends c.assembly c'.assembly) : NotedOnce c' := by
  refine ⟨?_, fun hm => ?_⟩
  · rw [same]
    exact once.nodup
  · rw [same] at hm
    exact more.child (once.there hm)

/-- A child of a name that had none may be noted. -/
theorem note (once : NotedOnce c) {id x : PartId} {name : String} {k : Composite}
    (composite : c.assembly.composite? id = some k) (absent : c.assembly.child? id name = none) :
    NotedOnce (c.edit (.child id name x)) := by
  have journal : noted (c.edit (.child id name x)).journal = (id, name) :: noted c.journal := rfl
  refine ⟨?_, fun {j n} hm => ?_⟩
  · rw [journal, List.nodup_cons]
    refine ⟨fun hm => ?_, once.nodup⟩
    have := once.there hm
    rw [absent] at this
    cases this
  · rw [journal] at hm
    rcases List.mem_cons.1 hm with same | hm
    · cases same
      rw [Context.edit_assembly, child?_child_self composite]
      rfl
    · exact (Extends.note c.assembly (.child id name x)).child (once.there hm)

/-- A new part is no child yet. -/
theorem add (once : NotedOnce c) (q : Part) : NotedOnce (c.edit (.add q)) := once.kept rfl (.add _ _)

end NotedOnce

namespace Build

theorem Routine.noted_eq (h : Routine c c') : noted c'.journal = noted c.journal :=
  h.filterMap_eq fun _ he => he.noted?

theorem Barren.noted_eq (h : Barren r c c') : noted c'.journal = noted c.journal := by
  induction h with
  | refl => rfl
  | trans _ _ ih₁ ih₂ => exact ih₂.trans ih₁
  | message c message => exact (Leafwork.message message).routine.noted_eq
  | task _ ih => exact ih
  | failed _ creation => exact creation.leafwork.routine.noted_eq
  | composite => rfl

theorem Barren.notedOnce (h : Barren r c c') (once : NotedOnce c) : NotedOnce c' :=
  once.kept h.noted_eq h.steps.extends

theorem CreatesLeaf.extends {type : NodeType} {role : Role} {settings : List (InputKey × Bound)}
    {name : Option String} {res : Result Leaf}
    (h : CreatesLeaf r type role settings name c res c') : Extends c.assembly c'.assembly := by
  rw [h.assembly]
  exact .refl _

theorem CreatesLeaf.notedOnce {type : NodeType} {role : Role} {settings : List (InputKey × Bound)}
    {name : Option String} {res : Result Leaf}
    (h : CreatesLeaf r type role settings name c res c') (once : NotedOnce c) : NotedOnce c' :=
  once.kept h.leafwork.routine.noted_eq h.extends

/-- As long as the journal is calm, a run notes no child twice. The child that is to be noted is still missing at the
end of its construction, since its composite is giving a child all the while. -/
theorem Run.notedOnce {ph : Phase} {id : PartId} {s : Nat} (h : Run W ph id s c c') (calm : Calm c'.journal)
    (hid : ph = .giving → id ∈ underway c.journal) (once : NotedOnce c) : NotedOnce c' := by
  induction h with
  | refl => exact once
  | trans first second ih₁ ih₂ =>
      refine ih₂ calm ?_ (ih₁ (second.calm calm) hid once)
      rw [first.underway_eq]
      exact hid
  | message c message => exact once.kept (Leafwork.message message).routine.noted_eq (.refl _)
  | barren barren => exact barren.notedOnce once
  | task inner _ ih => exact (ih calm.2 (fun _ => List.mem_cons_self) (once.kept rfl (.refl _))).kept rfl (.refl _)
  | @leafChild id s c c₁ n k l composite node absent makes =>
      have made : NotedOnce c₁ := once.kept makes.leafwork.routine.noted_eq (by rw [makes.assembly]; exact .refl _)
      have there : (c₁.edit (.add (.leaf l))).assembly.composite? id = some k := by
        rw [Context.edit_assembly, composite?_add_leaf, makes.assembly, composite]
      refine (made.add _).note there ?_
      rw [makes.child?, child?_of_composite? composite, absent]
  | @compositeChild id s c c₁ n k g composite node absent recipe implementation inner ih =>
      have built : NotedOnce c₁ := ih calm.2 nofun (once.add _)
      obtain ⟨k₁, there, -⟩ := ((Extends.add c.assembly _).trans inner.steps.extends).composite composite
      refine built.note there ?_
      rw [inner.leavesBusy calm.2 _ (hid rfl) nofun, Context.edit_assembly, child?_add_composite,
        child?_of_composite? composite, absent]
  | socket => exact once.kept rfl (.note _ (.socket _ _ _))
  | literal _ binds => exact once.kept binds.leafwork.routine.noted_eq (.of_rebinds binds.rebinds)
  | inside _ _ _ _ connects =>
      exact (once.kept connects.leafwork.routine.noted_eq (.of_rebinds connects.rebinds)).kept rfl (.note _ (.edge _ _))
  | insideFailed _ _ _ _ connects => exact once.kept connects.leafwork.routine.noted_eq (.of_rebinds connects.rebinds)
  | geometry absent creation =>
      refine ((creation.notedOnce once).add _).kept rfl (.share (.geometry ?_))
      rw [← creation.assembly] at absent
      exact absent
  | @top ph id s c absent =>
      have added : NotedOnce (c.edit (.add (.composite { graph := .document W.catalog.document }))) := once.add _
      refine added.kept rfl (.share (.top ?_))
      exact absent
  | viaTop top inner _ ih =>
      exact (ih calm.2 (fun _ => List.mem_cons_self) (once.kept rfl (.refl _))).kept rfl (.refl _)
  | viaGraph starts inner ih =>
      have begun := once.kept starts.routine.noted_eq (Starts.steps (r := W.renderer) starts).extends
      exact (ih calm.2 nofun begun).kept rfl (.share (.freeStanding _ _))
  | outside _ _ connects => exact once.kept connects.leafwork.routine.noted_eq (.of_rebinds connects.rebinds)

/-! ## Loads -/

theorem Works.suffix {harvest harvest' : Harvest} (h : Works W harvest c harvest' c') : c.journal <:+ c'.journal :=
  h.steps.moves.suffix

theorem Works.notedOnce {harvest harvest' : Harvest} (h : Works W harvest c harvest' c') (calm : Calm c'.journal)
    (once : NotedOnce c) : NotedOnce c' := by
  induction h with
  | refl | more | root => exact once
  | trans _ second ih₁ ih₂ => exact ih₂ calm (ih₁ (calm.of_suffix second.suffix) once)
  | mark _ _ mark => cases mark <;> exact once.kept rfl (.refl _)
  | inside _ _ run => exact run.notedOnce calm nofun once
  | elsewhere _ run => exact (run .asking 0 0).notedOnce calm nofun once
  | own _ inner => exact inner.notedOnce calm nofun (once.add _)
  | wrap _ _ creation => exact (creation.notedOnce once).add _
  | wrapFailed _ _ creation => exact creation.notedOnce once

theorem Loads.notedOnce {result : LoadResult} (h : Loads W c result c') (calm : Calm c'.journal)
    (once : NotedOnce c) : NotedOnce c' := by
  have released (xs : List PartId) (c : Context σ) (once : NotedOnce c) :
      NotedOnce (releasedAll W.renderer xs c) :=
    once.kept (leafwork_releasedAll xs c).routine.noted_eq (extends_releasedAll xs c)
  cases h with
  | nothing => exact once.kept rfl (.refl _)
  | unresolved works =>
      have before := calm.of_suffix (moves_releasedAll _ _).suffix
      exact released _ _ ((works.notedOnce before.2 once).kept rfl (.refl _))
  | handOver works _ message =>
      have before := calm.2.of_suffix (moves_releasedAll _ _).suffix
      exact (released _ _ (works.notedOnce before once)).kept (Leafwork.message message).routine.noted_eq (.refl _)

end Build

/-! ## The children at every moment -/

/-- Whatever is loaded, a composite never loses the child of a name. If no composite is asked for a child while it is
giving one, as is so for layered documents (`calm_of_load`), each child is noted once in the whole load, so it is built
once and stays the same. -/
theorem each_child_once (l : Loader) (d : Document) (options : LoadOptions) (fileExists : String → Bool)
    (r : Renderer σ) (s : σ) (o : Outcome σ) (loaded : l.load d options fileExists r s = some o) :
    (∀ before later id name, o.journal = before ++ later → ((replay before).child? id name).isSome →
      ((replay o.journal).child? id name).isSome) ∧
    (Calm o.journal.reverse → (noted o.journal).Nodup ∧
      ∀ before later id name x, o.journal = before ++ later → (replay before).child? id name = some x →
        (replay o.journal).child? id name = some x) := by
  obtain ⟨c, loads, -, hj⟩ := loads_of_load loaded
  have fits : Fits o.journal.reverse := by
    rw [hj, List.reverse_reverse]
    exact (loads.moves.faithful (.start s)).fits
  have split {before later : List Event} (h : o.journal = before ++ later) :
      o.journal.reverse = later.reverse ++ before.reverse := by rw [h, List.reverse_append]
  refine ⟨fun before later id name h there => ?_, fun calm => ?_⟩
  · rw [split h] at fits
    rw [← List.reverse_reverse before] at there
    have kept := fits.extends.child there
    rwa [← split h, List.reverse_reverse] at kept
  · rw [hj, List.reverse_reverse] at calm
    have once : (noted o.journal.reverse).Nodup := by
      rw [hj, List.reverse_reverse]
      exact (loads.notedOnce calm (.start s)).nodup
    refine ⟨?_, fun before later id name x h there => ?_⟩
    · rw [noted, List.filterMap_reverse] at once
      exact List.nodup_reverse.1 once
    · rw [split h] at fits once
      rw [← List.reverse_reverse before] at there
      have kept := child?_replay_of_nodup later.reverse before.reverse fits once there
      rwa [← split h, List.reverse_reverse] at kept

def diamond : Document where
  nodeDefs := [
    { name := "ND_add", node := "add", type := "float"
      inputs := [{ name := "in1", type := "float" }, { name := "in2", type := "float" }] }]
  nodes := [
    { name := "a", category := "add", type := "float"
      inputs := [{ name := "in1", type := "float", nodeName := some "b" },
        { name := "in2", type := "float", nodeName := some "b" }] },
    { name := "b", category := "constant", type := "float" }]
  outputs := [{ name := "o", type := "float", nodeName := some "a" }]

theorem each_child_once_diamond :
    ∃ o, Loader.load {} diamond {} (fun _ => false) Recorder.renderer {} = some o ∧ Calm o.journal.reverse ∧
      noted o.journal = [(0, "a"), (0, "b")] ∧ (noted o.journal).Nodup := by
  have evaluated : (Loader.load {} diamond {} (fun _ => false) Recorder.renderer {}).map
      (fun o => (decide (Calm o.journal.reverse), noted o.journal)) = some (true, [(0, "a"), (0, "b")]) := by
    decide +kernel
  obtain ⟨o, loaded, same⟩ := Option.map_eq_some_iff.1 evaluated
  obtain ⟨calm, twice⟩ := Prod.mk.inj same
  have calm := of_decide_eq_true calm
  have once := each_child_once {} diamond {} (fun _ => false) Recorder.renderer {} o loaded
  exact ⟨o, loaded, calm, twice, (once.2 calm).1⟩

/-- The graph of `thing` takes a value from `loop`, and `loop` takes that of `x`, a `thing` that is being built. -/
def reentrant : Document where
  nodeDefs := [
    { name := "ND_add", node := "add", type := "float"
      inputs := [{ name := "in1", type := "float" }, { name := "in2", type := "float" }] },
    { name := "ND_thing", node := "thing", type := "float", nodeGraph := some "NG_thing" }]
  nodeGraphs := [
    { name := "NG_thing", nodeDef := some "ND_thing"
      nodes := [
        { name := "a", category := "add", type := "float"
          inputs := [{ name := "in1", type := "float", nodeGraph := some "loop", output := some "back" }] }]
      outputs := [{ name := "out", type := "float", nodeName := some "a" }] },
    { name := "loop"
      nodes := [
        { name := "k", category := "add", type := "float"
          inputs := [{ name := "in1", type := "float", output := some "o" }] }]
      outputs := [{ name := "back", type := "integer", nodeName := some "k" }] }]
  nodes := [{ name := "x", category := "thing", type := "float" }]
  outputs := [{ name := "o", type := "float", nodeName := some "x" }]

/-- Calm cannot be left out: here `x` is built twice, and the second part takes the place of the first. -/
theorem reentrant_notes_twice :
    ∃ o, Loader.load {} reentrant {} (fun _ => false) Recorder.renderer {} = some o ∧ ¬ (noted o.journal).Nodup ∧
      ∃ before later, o.journal = before ++ later ∧ (replay before).child? 0 "x" = some 5 ∧
        (replay o.journal).child? 0 "x" = some 1 := by
  have evaluated : (Loader.load {} reentrant {} (fun _ => false) Recorder.renderer {}).map
      (fun o => (decide (noted o.journal).Nodup, (replay (o.journal.take 50)).child? 0 "x",
        (replay o.journal).child? 0 "x")) = some (false, some 5, some 1) := by
    decide +kernel
  obtain ⟨o, loaded, same⟩ := Option.map_eq_some_iff.1 evaluated
  obtain ⟨twice, same⟩ := Prod.mk.inj same
  obtain ⟨first, second⟩ := Prod.mk.inj same
  exact ⟨o, loaded, of_decide_eq_false twice, o.journal.take 50, o.journal.drop 50,
    (List.take_append_drop 50 o.journal).symm, first, second⟩

end MaterialGraph
