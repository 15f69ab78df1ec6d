import MaterialGraph.Proofs.Build.Halfway
import MaterialGraph.Proofs.Ending

/-!
# All states of a load

The trace of a load tells all that happens in it, whether the load returns or not.

* `breaks_loadDocument` : a load that does not return is halfway.
* `Traces` : a load has returned, or it is halfway. The trace of any load leads there (`exists_traces`).
* `tidy_of_trace` : its events put things where they may stand.
* `parts_form_forest` : at every moment the parts form a forest.
-/

namespace MaterialGraph

set_option autoImplicit false

open Build Assembly Relation

variable {σ : Type} {W : Env σ} {c c₁ c' : Context σ} {p : Place} {id : PartId}

namespace Build

theorem Halfway.grows (h : Halfway W c c') (orderly : Orderly c) : Grows c.assembly.size c c' := by
  induction h using ReflTransGen.head_induction_on with
  | refl => exact .refl _ orderly
  | @head c c₁ first _ ih =>
      cases first with
      | run run =>
          have grows := run.grows orderly
          exact grows.trans (ih grows.orderly) run.steps.extends.size
      | works works =>
          have grows := works.grows orderly
          exact grows.trans (ih grows.orderly) works.steps.extends.size
      | began t =>
          have grows := Grows.mark orderly (.began t) c.assembly.size
          exact grows.trans (ih grows.orderly) (Nat.le_refl _)
      | composite g =>
          have grows := Grows.addComposite orderly g c.assembly.size
          exact grows.trans (ih grows.orderly) (Extends.add _ _).size
      | starts starts =>
          have grows := (starts.grows orderly).1
          exact grows.trans (ih grows.orderly) starts.size_le

/-! ## Groups -/

theorem breaks_groupComposite (sturdy : Sturdy W c) (g : Group) :
    Breaks (groupComposite g) (W.at p) c (Halfway W c) := by
  rw [groupComposite]
  split
  · exact breaks_buildComposite sound_part halts_part sturdy _ _
  · rw [breaks_total_bind total_topComposite]
    refine after_topComposite.mono ?_
    rintro t c₁ ⟨-, run⟩
    rw [breaks_andThen]
    exact ⟨(breaks_buildOutputs sound_part halts_part (sturdy.run (run .asking 0 0)) _).mono fun _ half =>
      half.after (run .asking 0 0), fun _ _ _ _ _ => (total_pure _).breaks⟩
  · exact breaks_freeStandingGraph sound_part halts_part sturdy _ _

theorem breaks_setBindInput (sturdy : Sturdy W c) (id : PartId) (r : ShaderRef) (i : Input) :
    Breaks (setBindInput id r i) (W.at p) c (Halfway W c) := by
  have takes : Takes .asking id id (c.edit (.began (.override id r i))) id := ⟨rfl, Nat.le_refl _⟩
  have sturdy : Sturdy W (c.edit (.began (.override id r i))) := sturdy.began _
  rw [setBindInput, breaks_asTask, breaks_bind]
  refine ⟨(breaks_connectOutside sound_part halts_part sturdy i id i).mono fun _ => .head (.began _), ?_⟩
  refine (after_connectOutside .asking sound_part takes).mono fun done c₁ run => Returns.breaks ?_
  split
  · exact rfl
  · split
    · exact rfl
    · rw [returns_total_bind (total_remark _), after_remark, returns_bind]
      refine ⟨returns_bindInput (c := c₁.push _) (sturdy.run run).descends id i _, fun res c₂ _ => ?_⟩
      cases res <;> exact rfl

theorem breaks_outputLeaf (sturdy : Sturdy W c) (id : PartId) (o : Output) :
    Breaks (outputLeaf id o) (W.at p) c (Halfway W c) := by
  rw [outputLeaf, breaks_total_bind total_assembly, after_assembly]
  split
  · exact (total_pure _).breaks
  · split
    · exact (total_pure _).breaks
    · exact (total_pure _).breaks
    · rw [innerPart]
      split
      · exact ((total_emit _).bind fun _ => total_pure _).breaks
      · dsimp only
        split
        · exact (total_pure _).breaks
        · rw [breaks_bind]
          refine ⟨halts_part p _ _ c sturdy, fun res c₁ _ => ?_⟩
          cases res with
          | none => exact (total_pure _).breaks
          | some => exact (total_assembly.bind fun _ => total_pure _).breaks

theorem breaks_addRoot (sturdy : Sturdy W c) (g : Group) (id : PartId) (harvest : Harvest)
    (o : OutputKind × Output) : Breaks (addRoot g id harvest o) (W.at p) c (Halfway W c) := by
  have sturdy : Sturdy W (c.edit (.began (.root id o.1))) := sturdy.began _
  have root : Breaks (rootOf g id o.1 o.2) (W.at p) (c.edit (.began (.root id o.1))) (Halfway W c) := by
    rw [rootOf, breaks_bind]
    refine ⟨(breaks_outputLeaf sturdy id o.2).mono fun _ => .head (.began _), fun res c₁ _ => Returns.breaks ?_⟩
    cases res with
    | none => exact rfl
    | some leaf =>
        dsimp only
        rw [returns_total_bind total_assembly, after_assembly]
        split
        · exact rfl
        · split
          · rw [returns_total_bind (total_wrapSurface _ _)]
            intro res c₂ _
            cases res <;> exact rfl
          · exact rfl
  rw [addRoot, breaks_bind, breaks_asTask]
  refine ⟨root, fun res c₁ _ => ?_⟩
  obtain ⟨root, added⟩ := res
  cases root <;> exact (total_pure _).breaks

theorem breaks_addRoots (sturdy : Sturdy W c) (g : Group) {harvest : Harvest}
    (known : Reached c.assembly harvest.parts id) :
    Breaks (g.outputs.foldlM (addRoot g id) harvest) (W.at p) c (Halfway W c) := by
  refine breaks_foldlM (I := fun harvest₁ c₁ => Works W harvest c harvest₁ c₁) (fun o _ harvest₁ c₁ works => ?_)
    (.refl _ _)
  exact ⟨(breaks_addRoot (sturdy.works works) g id harvest₁ o).mono fun _ => .head (.works works),
    (after_addRoot (works.known known)).mono fun _ _ works₁ => works.trans works₁⟩

theorem breaks_setBindInputs (sturdy : Sturdy W c) (g : Group) (r : ShaderRef) {harvest : Harvest}
    (known : Reached c.assembly harvest.parts id) :
    Breaks (r.bindInputs.forM (setBindInput id r) >>= fun _ => g.outputs.foldlM (addRoot g id) harvest) (W.at p) c
      (Halfway W c) := by
  have set (i : Input) (c₁ : Context σ) (works : Works W harvest c harvest c₁) :
      After (setBindInput id r i) (W.at p) c₁ fun _ c₂ => Works W harvest c harvest c₂ :=
    after_setBindInput.mono fun _ _ sets => works.trans (sets.works (works.known known))
  rw [breaks_bind]
  refine ⟨breaks_forM (fun i _ c₁ works => ⟨?_, set i c₁ works⟩) (.refl harvest c), ?_⟩
  · exact (breaks_setBindInput (sturdy.works works) id r i).mono fun _ => .head (.works works)
  · refine (after_forM (fun i _ c₁ works => set i c₁ works) (.refl harvest c)).mono fun _ c₁ works => ?_
    exact (breaks_addRoots (sturdy.works works) g (works.known known)).mono fun _ => .head (.works works)

/-- What is reached through a shader reference is built in a composite of its own, so it breaks off in there. -/
theorem breaks_buildGroup_own (sturdy : Sturdy W c) (harvest : Harvest) {g : Group} (own : g.shaderRef.isSome) :
    Breaks (buildGroup harvest g) (W.at p) c (Halfway W (c.edit (.add (.composite { graph := g.graph })))) := by
  obtain ⟨ref, href⟩ := Option.isSome_iff_exists.1 own
  have added := sturdy.addComposite g.graph
  rw [buildGroup, groupComposite, href]
  dsimp only
  rw [breaks_bind]
  constructor
  · rw [buildComposite, addComposite, breaks_total_bind (total_addPart _), after_addPart, breaks_andThen]
    exact ⟨breaks_buildOutputs sound_part halts_part added _, fun _ _ _ _ _ => (total_pure _).breaks⟩
  · refine after_buildComposite_run.mono ?_
    rintro res c₁ ⟨run, -⟩
    cases res with
    | error e => exact ((total_reportGroup e).bind fun _ => total_pure _).breaks
    | ok id => exact (breaks_setBindInputs (added.run run) g ref (reached_add _ harvest id)).mono fun _ half =>
        half.after run

theorem breaks_buildGroup (sturdy : Sturdy W c) (harvest : Harvest) (g : Group) :
    Breaks (buildGroup harvest g) (W.at p) c (Halfway W c) := by
  cases href : g.shaderRef with
  | some ref =>
      exact (breaks_buildGroup_own sturdy harvest (by rw [href]; rfl)).mono fun _ => .head (.composite _)
  | none =>
      rw [buildGroup, breaks_bind]
      refine ⟨breaks_groupComposite sturdy g, (after_groupComposite_shared href).mono ?_⟩
      rintro res c₁ ⟨works, -⟩
      cases res with
      | error e => exact ((total_reportGroup e).bind fun _ => total_pure _).breaks
      | ok id =>
          rw [href]
          exact (breaks_addRoots (sturdy.works (works harvest)) g (reached_add _ harvest id)).mono fun _ =>
            .head (.works (works harvest))

theorem breaks_buildGroups (sturdy : Sturdy W c) (gs : List Group) (harvest : Harvest) :
    Breaks (gs.foldlM buildGroup harvest) (W.at p) c (Halfway W c) := by
  refine breaks_foldlM (I := fun harvest₁ c₁ => Works W harvest c harvest₁ c₁) (fun g _ harvest₁ c₁ works => ?_)
    (.refl _ _)
  exact ⟨(breaks_buildGroup (sturdy.works works) harvest₁ g).mono fun _ => .head (.works works),
    after_buildGroup.mono fun _ _ works₁ => works.trans works₁⟩

/-! ## Loads -/

/-- What follows the groups never breaks off. -/
theorem breaks_loadSelection {P : Context σ → Prop} {s : Selection}
    (groups : Breaks ((Group.ofSelected s.selected).foldlM buildGroup {}) (W.at p) c P) :
    Breaks (loadSelection s) (W.at p) c P := by
  rw [loadSelection, breaks_bind]
  refine ⟨groups, fun harvest c₁ _ => ?_⟩
  dsimp only
  split
  · exact (total_catalog.bind fun _ => (total_emit _).bind fun _ => total_assembly.bind fun _ =>
      (total_releaseParts _).bind fun _ => total_pure _).breaks
  · exact (total_assembly.bind fun _ => (total_releaseParts _).bind fun _ => (total_emit _).bind fun _ =>
      total_pure _).breaks

/-- A composite that a group has got for its shader reference is not adopted before a load breaks off. -/
theorem breaks_buildGroups_own {gs earlier rest : List Group} {g : Group} {harvest : Harvest}
    (groups : gs = earlier ++ g :: rest) (own : g.shaderRef.isSome)
    (reached : earlier.foldlM buildGroup {} (W.at p) c = .ok (harvest, c₁)) (sturdy : Sturdy W c) :
    Breaks (gs.foldlM buildGroup {}) (W.at p) c fun c' => c₁.assembly.size ∉ adopted c'.journal := by
  have sturdy₁ : Sturdy W c₁ := sturdy.works ((after_buildGroups earlier {}).of_eq reached)
  rw [groups, List.foldlM_append, breaks_bind]
  refine ⟨fun c' broken => ?_, fun harvest' c₁' reached' => ?_⟩
  · rw [reached] at broken
    cases broken
  · rw [reached] at reached'
    cases reached'
    have added := sturdy₁.addComposite g.graph
    have fresh : c₁.assembly.size ∉ adopted (c₁.edit (.add (.composite { graph := g.graph }))).journal := fun h =>
      Nat.lt_irrefl _ (sturdy₁.orderly.lt_of_adopted h)
    rw [List.foldlM_cons, breaks_bind]
    refine ⟨(breaks_buildGroup_own sturdy₁ harvest own).mono fun c' half => ?_, ?_⟩
    · exact (half.grows added.orderly).not_adopted (hasGraph_added g.graph).lt_size fresh
    · refine ((after_buildGroup_own own sturdy₁.orderly).and after_buildGroup).mono ?_
      rintro harvest₂ c₂ ⟨⟨grows, there⟩, works⟩
      refine (breaks_buildGroups (sturdy₁.works works) rest harvest₂).mono fun c' half => ?_
      exact (half.grows grows.orderly).not_adopted there (grows.not_adopted (Nat.lt_succ_self _) fresh)

end Build

/-- How far a load can have got: it has returned, or it has broken off. -/
def Traces (W : Env σ) (c c' : Context σ) : Prop := (∃ result, Loads W c result c') ∨ Halfway W c c'

section

variable {l : Loader} {d : Document} {options : LoadOptions} {fileExists : String → Bool} {r : Renderer σ} {s : σ}
  {o : Outcome σ} {before later : List Event}

/-- If a load does not return, it breaks off while its groups are built. -/
theorem breaks_loadDocument {P : Context σ → Prop}
    (groups : Breaks ((l.groups d options).foldlM buildGroup {})
      ((l.env d options fileExists r).at (Place.enter {} .global d.filePrefix)) c P) :
    Breaks (loadDocument options.targets) (l.env d options fileExists r) c P := by
  rw [loadDocument, breaks_total_bind total_catalog, after_catalog]
  dsimp only
  rw [breaks_within]
  split
  · exact ((total_emit _).bind fun _ => total_pure _).breaks
  · exact breaks_loadSelection groups

/-- The trace of a load is the journal of a context to which the load has got. -/
theorem exists_traces (l : Loader) (d : Document) (options : LoadOptions) (fileExists : String → Bool)
    (r : Renderer σ) (s : σ) :
    ∃ c, Traces (l.env d options fileExists r) { system := s } c ∧
      l.trace d options fileExists r s = c.journal.reverse := by
  have breaks : Breaks (loadDocument options.targets) (l.env d options fileExists r) { system := s } _ :=
    breaks_loadDocument (breaks_buildGroups (W := l.env d options fileExists r) (.start s) _ {})
  unfold Loader.trace
  cases built : loadDocument options.targets (l.env d options fileExists r) { system := s } with
  | ok x => exact ⟨x.2, .inl ⟨x.1, after_loadDocument.of_eq built⟩, rfl⟩
  | error c => exact ⟨c, .inr (breaks c built), rfl⟩

/-- The trace of a load that returns is its journal. -/
theorem trace_of_load (loaded : l.load d options fileExists r s = some o) :
    l.trace d options fileExists r s = o.journal := by
  obtain ⟨c, built, -, journal⟩ := built_of_load loaded
  rw [Loader.trace, built, journal]

/-- The last moment of such a load is one of its moments. -/
theorem trace_eq_append_nil (loaded : l.load d options fileExists r s = some o) :
    l.trace d options fileExists r s = o.journal ++ [] :=
  (trace_of_load loaded).trans (List.append_nil _).symm

/-- At every moment of a load, its events fit what is there and put things where they may stand. -/
theorem tidy_of_trace (split : l.trace d options fileExists r s = before ++ later) :
    Fits before.reverse ∧ Tidy before.reverse := by
  obtain ⟨c, traces, trace⟩ := exists_traces l d options fileExists r s
  have orderly : Orderly c := by
    rcases traces with ⟨result, loads⟩ | half
    · exact loads.orderly (.start s)
    · exact (half.grows (.start s)).orderly
  have reversed : c.journal = later.reverse ++ before.reverse := by
    rw [← List.reverse_append, ← split, trace, List.reverse_reverse]
  exact ⟨Fits.of_append (reversed ▸ orderly.faithful.fits), Tidy.of_append (reversed ▸ orderly.tidy)⟩

end

/-- At every moment of a load, whether it returns or not, its parts form a forest ordered by number, and the composite
that a group gets for its shader reference, which is the next part when the group is built, is no child. So to look for
the node behind an output and to bind an input return there. -/
theorem parts_form_forest (l : Loader) (d : Document) (options : LoadOptions) (fileExists : String → Bool)
    (r : Renderer σ) (s : σ) (before later : List Event)
    (split : l.trace d options fileExists r s = before ++ later) :
    (replay before).Forest ∧
      (∀ earlier g rest harvest c, l.groups d options = earlier ++ g :: rest → g.shaderRef.isSome →
        l.builds d options fileExists r s earlier = .ok (harvest, c) → ¬ (replay before).IsChild c.assembly.size) ∧
      ∀ (E : Env σ) (c : Context σ) (x : PartId), c.assembly = replay before →
        (∀ output, Returns (outputHandle x output) E c) ∧ ∀ i b, Returns (bindInput x i b) E c := by
  obtain ⟨fits, tidy⟩ := tidy_of_trace split
  have forest := tidy.forest fits
  rw [List.reverse_reverse] at forest
  refine ⟨forest, ?_, ?_⟩
  · intro earlier g rest harvest c₁ groups own reached child
    rw [← List.reverse_reverse before] at child
    have adopted := mem_adopted_append later.reverse (Tidy.mem_adopted fits child)
    rw [← List.reverse_append, ← split, Loader.trace] at adopted
    cases built : loadDocument options.targets (l.env d options fileExists r) { system := s } with
    | error c =>
        have never : Breaks (loadDocument options.targets) (l.env d options fileExists r) { system := s }
            fun c => c₁.assembly.size ∉ MaterialGraph.adopted c.journal :=
          breaks_loadDocument (breaks_buildGroups_own (W := l.env d options fileExists r) groups own reached (.start s))
        rw [built, List.reverse_reverse] at adopted
        exact never c built adopted
    | ok x =>
        have never : After (loadDocument options.targets) (l.env d options fileExists r) { system := s }
            fun _ c' => c₁.assembly.size ∉ MaterialGraph.adopted c'.journal := by
          rw [loadDocument, after_bind, after_catalog]
          dsimp only
          rw [after_within]
          split
          · next none =>
            rw [after_bind, after_warn, after_pure]
            exact List.not_mem_nil
          · exact after_loadSelection_own groups own reached (.start s)
        rw [built, List.reverse_reverse] at adopted
        exact never x.1 x.2 built adopted
  · intro E c₁ x hc
    have descends : Descends c₁.assembly := hc ▸ forest.descends
    exact ⟨returns_outputHandle descends x, returns_bindInput descends x⟩

/-- A material whose shader reference tints a graph of one node. -/
def tinted : Document where
  nodeDefs := [
    { name := "ND_add", node := "add", type := "float"
      inputs := [{ name := "in1", type := "float" }, { name := "in2", type := "float" }] },
    { name := "ND_shade", node := "shade", type := "float", nodeGraph := some "NG_shade"
      inputs := [{ name := "tint", type := "float" }] }]
  nodeGraphs := [
    { name := "NG_shade", nodeDef := some "ND_shade"
      nodes := [
        { name := "a", category := "add", type := "float"
          inputs := [{ name := "in1", type := "float", interfaceName := some "tint" }] }]
      outputs := [{ name := "out", type := "float", nodeName := some "a" }] }]
  materials := [
    { name := "m"
      shaderRefs := [
        { name := "s", node := "shade", bindInputs := [{ name := "tint", type := "float", value := some "0.5" }] }] }]

/-- In the end, the composite of the shader reference is part 0, its child is part 1, and a leaf that stands for a
surface is part 2. -/
theorem parts_form_forest_tinted :
    ∃ o, Loader.load {} tinted {} (fun _ => false) Recorder.renderer {} = some o ∧
      (replay o.journal).child? 0 "a" = some 1 ∧ (replay o.journal).size = 3 ∧ (replay o.journal).Forest ∧
        ¬ (replay o.journal).IsChild 0 ∧
          ∀ c : Context Recorder, c.assembly = replay o.journal →
            ∀ E i b, Returns (bindInput 0 i b) E c := by
  have evaluated : (Loader.load {} tinted {} (fun _ => false) Recorder.renderer {}).map
      (fun o => ((replay o.journal).child? 0 "a", (replay o.journal).size)) = some (some 1, 3) := by
    decide +kernel
  obtain ⟨o, loaded, same⟩ := Option.map_eq_some_iff.1 evaluated
  obtain ⟨child, size⟩ := Prod.mk.inj same
  obtain ⟨g, groups, own⟩ : ∃ g, Loader.groups {} tinted {} = [g] ∧ g.shaderRef.isSome := by
    have first : ((Loader.groups {} tinted {}).map fun g => g.shaderRef.isSome) = [true] := by decide +kernel
    obtain ⟨g, groups, own⟩ := List.map_eq_singleton_iff.1 first
    exact ⟨g, groups, own⟩
  obtain ⟨forest, unadopted, returns⟩ := parts_form_forest {} tinted {} (fun _ => false) Recorder.renderer {}
    o.journal [] (trace_eq_append_nil loaded)
  exact ⟨o, loaded, child, size, forest, unadopted [] g [] {} { system := {} } groups own rfl,
    fun c hc E i b => (returns E c 0 hc).2 i b⟩

end MaterialGraph
