import MaterialGraph.Build.Group
import MaterialGraph.Loader
import MaterialGraph.Proofs.Mirror.Resolver

/-!
# Mirrored loads

* `mirrors_buildGroup`, `mirrors_handOver`, `mirrors_loadDocument` : what follows the resolver mirrors itself.
* `Loader.load_mirrors` : in documents that are alike, with renderers that are seen in each other, loads do the same
  and hand over the same, but for handles.
-/

namespace MaterialGraph

set_option autoImplicit false

open List (Forall₂)

variable {σ σ' : Type} {r : Renderer σ} {r' : Renderer σ'} {M : Mirror r r'}

namespace Build

/-! ## Groups -/

theorem mirrors_groupComposite {g g' : Group} (h : g.Alike g') :
    Mirrors M Eq (groupComposite g) (groupComposite g') := by
  obtain ⟨alike, shader, outputs⟩ := h
  cases shader with
  | some => cases alike <;> exact mirrors_buildComposite mirrors_part (by constructor; assumption) _
  | none =>
      cases alike with
      | document alike =>
          refine mirrors_topComposite.bind_same fun id => ?_
          exact mirrors_andThen_same (mirrors_buildOutputs mirrors_part id _) fun _ => mirrors_pure rfl
      | named alike => exact mirrors_freeStandingGraph mirrors_part alike _

theorem mirrors_setBindInput (id : PartId) (shader : ShaderRef) (i : Input) :
    Mirrors M Eq (setBindInput id shader i) (setBindInput id shader i) := by
  refine mirrors_asTask ((mirrors_connectOutside mirrors_part i id i).bind_same fun connected => ?_)
  split
  · exact mirrors_pure rfl
  · split
    · exact mirrors_pure rfl
    · refine (mirrors_remark _).bind_same fun _ => (mirrors_bindInput id i (.literal _ _)).bind_same fun res => ?_
      cases res with
      | ok => exact mirrors_pure rfl
      | error e => exact mirrors_warn _

theorem mirrors_innerPart (child : PartId) {g g' : Graph} (alike : g.Alike g') (o : Output) :
    Mirrors M Eq (innerPart child g o) (innerPart child g' o) := by
  unfold innerPart
  rw [alike.type, alike.outputs, funext alike.output?]
  split
  · exact (mirrors_warn _).bind_same fun _ => mirrors_pure rfl
  · dsimp only
    split
    · exact mirrors_pure rfl
    · refine (mirrors_part child _).bind_same fun o => ?_
      cases o with
      | none => exact mirrors_pure rfl
      | some found =>
          refine mirrors_assembly.bind fun a a' h => ?_
          rw [h.leaf?, Option.isSome_map]
          exact mirrors_pure rfl

theorem mirrors_outputLeaf (id : PartId) (o : Output) : Mirrors M Eq (outputLeaf id o) (outputLeaf id o) := by
  refine mirrors_assembly.bind fun a a' h => ?_
  have child : ((a'.composite? id).bind fun c => o.nodeName?.bind c.child?) =
      (a.composite? id).bind fun c => o.nodeName?.bind c.child? := by
    obtain ⟨none, none'⟩ | ⟨k, k', some, some', twin⟩ := rel_none_or_some (h.composite? id)
    · rw [none, none']
    · rw [some, some', Option.bind_some, Option.bind_some, funext twin.child?]
  rw [child]
  split
  · exact mirrors_pure rfl
  · next child _ =>
    obtain ⟨none, none'⟩ | ⟨q, q', some, some', twin⟩ := rel_none_or_some (h.part? child)
    · rw [none, none']
      exact mirrors_pure rfl
    · rw [some, some']
      cases twin with
      | leaf => exact mirrors_pure rfl
      | composite twin => exact mirrors_innerPart child twin.graph o

theorem mirrors_wrapSurface (h : Handle) (type : String) :
    Mirrors M Eq (wrapSurface h type) (wrapSurface (M.label h) type) := by
  unfold wrapSurface
  split
  · refine mirrors_andThen (mirrors_createLeaf _ _ [(.color, .node h)] _) fun l => ?_
    exact (mirrors_addPart (.leaf l)).bind_same fun _ => mirrors_pure rfl
  · exact mirrors_pure rfl

theorem mirrors_rootOf {g g' : Group} (alike : g.graph.Alike g'.graph) (id : PartId) (kind : OutputKind) (o : Output) :
    Mirrors M Eq (rootOf g id kind o) (rootOf g' id kind o) := by
  unfold rootOf
  rw [alike.name]
  refine (mirrors_outputLeaf id o).bind_same fun found => ?_
  cases found with
  | none => exact (mirrors_warn _).bind_same fun _ => mirrors_pure rfl
  | some leaf =>
      refine mirrors_assembly.bind fun a a' h => ?_
      have handle : ((a'.leaf? leaf).bind fun l => l.hold.handle?) =
          ((a.leaf? leaf).bind fun l => l.hold.handle?).map M.label := by
        rw [h.leaf?]
        cases a.leaf? leaf with
        | none => rfl
        | some l => exact Hold.handle?_relabel l.hold
      rw [handle]
      cases (a.leaf? leaf).bind fun l => l.hold.handle? with
      | none => exact (mirrors_warn _).bind_same fun _ => mirrors_pure rfl
      | some h =>
          dsimp only [Option.map_some]
          split
          · refine (mirrors_wrapSurface h o.type).bind_same fun res => ?_
            cases res with
            | ok => exact mirrors_pure rfl
            | error => exact (mirrors_warn _).bind_same fun _ => mirrors_pure rfl
          · exact mirrors_pure rfl

theorem mirrors_addRoot {g g' : Group} (alike : g.graph.Alike g'.graph) (id : PartId) (harvest : Harvest)
    (o : OutputKind × Output) : Mirrors M Eq (addRoot g id harvest o) (addRoot g' id harvest o) := by
  refine (mirrors_asTask (mirrors_rootOf alike id o.1 o.2)).bind_same fun ⟨root, added⟩ => ?_
  cases root <;> exact mirrors_pure rfl

theorem mirrors_reportGroup (e : LoadError) : Mirrors M Eq (reportGroup e) (reportGroup e) := by
  unfold reportGroup
  split
  · exact mirrors_remark _
  · exact mirrors_warn _

theorem mirrors_buildGroup (harvest : Harvest) {g g' : Group} (h : g.Alike g') :
    Mirrors M Eq (buildGroup harvest g) (buildGroup harvest g') := by
  have roots (id : PartId) (harvest : Harvest) :
      Mirrors M Eq (g.outputs.foldlM (addRoot g id) harvest) (g'.outputs.foldlM (addRoot g' id) harvest) := by
    rw [h.outputs]
    refine mirrors_foldlM (R := Eq) (fun b o o' same => ?_) (List.forall₂_same.2 fun _ _ => rfl) harvest
    rw [same]
    exact mirrors_addRoot h.graph id b o'
  refine (mirrors_groupComposite h).bind_same fun res => ?_
  cases res with
  | error e => exact (mirrors_reportGroup e).bind_same fun _ => mirrors_pure rfl
  | ok id =>
      dsimp only
      rw [h.shaderRef]
      split
      · exact (mirrors_forM (mirrors_setBindInput id _) _).bind_same fun _ => roots id _
      · exact roots id _

/-! ## Results -/

theorem mirrors_releaseParts (ids : List PartId) : Mirrors M Eq (releaseParts ids) (releaseParts ids) := by
  refine mirrors_forM (fun id => mirrors_assembly.bind fun a a' h => ?_) ids
  rw [h.leaf?]
  cases a.leaf? id with
  | none => exact mirrors_pure rfl
  | some l => exact mirrors_release id l

abbrev RelabelsResult (M : Mirror r r') (res res' : LoadResult) : Prop := res' = res.relabel M.label

theorem mirrors_handOver (harvest : Harvest) :
    Mirrors M (RelabelsResult M) (handOver harvest) (handOver harvest) := by
  refine mirrors_assembly.bind fun a a' h => ?_
  dsimp only
  rw [h.left, h.ofAssembly M.injective, h.size]
  refine (mirrors_releaseParts _).bind_same fun _ => ?_
  generalize LoadResult.ofAssembly a harvest.parts harvest.roots = res
  have nodes : (res.relabel M.label).nodes.length = res.nodes.length := List.length_map _
  have images : (res.relabel M.label).images.length = res.images.length := List.length_map _
  rw [nodes, images]
  exact (mirrors_emit (e := .finished _ _ _) rfl rfl).bind_same fun _ => mirrors_pure rfl

theorem mirrors_loadSelection {s s' : Selection} (h : Forall₂ Group.Alike (Group.ofSelected s.selected)
    (Group.ofSelected s'.selected)) : Mirrors M (RelabelsResult M) (loadSelection s) (loadSelection s') := by
  refine (mirrors_foldlM (R := Group.Alike) (fun b _ _ h => mirrors_buildGroup b h) h {}).bind_same fun harvest => ?_
  split
  · refine mirrors_catalog.bind fun C C' alike => ?_
    rw [alike.document.name]
    refine (mirrors_warn _).bind_same fun _ => mirrors_assembly.bind fun a a' h => ?_
    rw [h.size]
    exact (mirrors_releaseParts _).bind_same fun _ => mirrors_pure rfl
  · exact mirrors_handOver harvest

theorem mirrors_loadDocument (targets : Option (PerKind String)) :
    Mirrors M (RelabelsResult M) (loadDocument targets) (loadDocument targets) := by
  refine mirrors_catalog.bind fun C C' alike => ?_
  have selected : (Selection.choose C' targets).selected.isEmpty = (Selection.choose C targets).selected.isEmpty := by
    have := Selection.alike_selected (Selection.alike_choose alike targets)
    generalize (Selection.choose C targets).selected = l at this ⊢
    generalize (Selection.choose C' targets).selected = l' at this ⊢
    cases this <;> rfl
  dsimp only
  rw [selected, alike.document.filePrefix, alike.document.name]
  refine mirrors_within ?_
  split
  · exact (mirrors_warn _).bind_same fun _ => mirrors_pure rfl
  · exact mirrors_loadSelection (groups_alike alike targets)

end Build

namespace Loader

open Build

/-- Loaders with catalogs that are alike, and else the same but for remarks, do the same in renderers that are seen in
each other: both return nothing, or both hand over the same and show the same events, but for handles, and for remarks
if the second wants none. -/
theorem load_mirrors_heard (M : Mirror r r') {l l' : Loader} {d d' : Document}
    (loaders : l' = { l with library := l'.library, logging := l.logging && !M.deaf })
    (alike : (l.catalog d).Alike (l'.catalog d'))
    (options : LoadOptions) (fileExists : String → Bool) {s : σ} {s' : σ'} (sees : M.Sees s s') :
    Option.Rel (fun o o' => o'.result = o.result.relabel M.label ∧ M.Sees o.system o'.system ∧
        l'.shown o' = ((l.shown o).filter M.hears).map (Event.relabel M.label))
      (l.load d options fileExists r s) (l'.load d' options fileExists r' s') := by
  have environments : Env.Twin M (l.env d options fileExists r) (l'.env d' options fileExists r') :=
    ⟨rfl, rfl, alike, by rw [loaders]; rfl, rfl, by rw [loaders]; rfl, rfl⟩
  have start : Assembly.Twin M.label {} {} := ⟨fun id => by simp [Assembly.part?], rfl, rfl, rfl⟩
  refine rel_map (mirrors_loadDocument options.targets _ _ { system := s } { system := s' } environments
    ⟨sees, start, rfl⟩) ?_
  rintro x x' ⟨result, twin⟩
  refine ⟨result, twin.system, ?_⟩
  unfold Loader.shown
  dsimp only
  rw [List.filter_reverse, List.filter_reverse, List.filter_reverse, List.map_reverse]
  exact congrArg List.reverse twin.visible

/-- If remarks are wanted on both sides or on none, both sides show the same, but for handles. -/
theorem load_mirrors (M : Mirror r r') (hearing : M.deaf = false) {l l' : Loader} {d d' : Document}
    (loaders : l' = { l with library := l'.library }) (alike : (l.catalog d).Alike (l'.catalog d'))
    (options : LoadOptions) (fileExists : String → Bool) {s : σ} {s' : σ'} (sees : M.Sees s s') :
    Option.Rel (fun o o' => o'.result = o.result.relabel M.label ∧ M.Sees o.system o'.system ∧
        l'.shown o' = (l.shown o).map (Event.relabel M.label))
      (l.load d options fileExists r s) (l'.load d' options fileExists r' s') := by
  have logging : (l.logging && !M.deaf) = l.logging := by rw [hearing, Bool.not_false, Bool.and_true]
  refine rel_mono ?_ (load_mirrors_heard M (by rw [logging]; exact loaders) alike options fileExists sees)
  rintro o o' ⟨result, system, shown⟩
  refine ⟨result, system, shown.trans (congrArg _ (List.filter_eq_self.2 fun e _ => ?_))⟩
  rw [Mirror.hears, hearing]
  rfl

end Loader

end MaterialGraph
