import MaterialGraph.Proofs.Borrowing
import MaterialGraph.Proofs.Forest

/-!
# Roots

The leaf that becomes the root of a kind holds a node at that time. Later it may hold another one, and a displacement
may hold none. The result names the node that it holds in the end, if that node is handed over.

* `Standing` : a leaf holds a node or is a displacement.
* `Works.roots` : the leaves that have become roots stay so.
* `roots_resolve` : which roots a load hands over.
-/

namespace MaterialGraph

set_option autoImplicit false

open Build Assembly Relation

variable {σ : Type} {r : Renderer σ} {W : Env σ} {c c' : Context σ}

namespace Build

/-- A leaf holds a node, or it is a displacement, which may lose its constant. -/
def Standing (l : Leaf) : Prop := l.hold.handle?.isSome ∨ ∃ name, l.role = .displacement name

def Stands (a : Assembly) (x : PartId) : Prop := ∃ l, a.leaf? x = some l ∧ Standing l

theorem HoldsSome.stands {a : Assembly} {x : PartId} (h : HoldsSome a x) : Stands a x := by
  obtain ⟨g, holds⟩ := h
  obtain ⟨l, leaf, held⟩ := Option.bind_eq_some_iff.1 holds
  exact ⟨l, leaf, .inl (by rw [held]; rfl)⟩

theorem Stands.congr {a a' : Assembly} {x : PartId} (h : Stands a x) (leaf : a'.leaf? x = a.leaf? x) : Stands a' x := by
  unfold Stands
  rw [leaf]
  exact h

theorem Stands.setLeaf {a : Assembly} {x y : PartId} {l l' : Leaf} (h : Stands a y) (leaf : a.leaf? x = some l)
    (standing : Standing l → Standing l') : Stands (a.apply (.leaf x l')) y := by
  obtain ⟨k, there, hk⟩ := h
  by_cases hy : y = x
  · rw [hy, leaf] at there
    cases there
    exact ⟨l', by rw [leaf?_leaf leaf, if_pos hy], standing hk⟩
  · exact ⟨k, by rw [leaf?_leaf leaf, if_neg hy, there], hk⟩

theorem Stands.add {a : Assembly} {x : PartId} (h : Stands a x) (l : Leaf) : Stands (a.apply (.add (.leaf l))) x := by
  refine h.congr ?_
  obtain ⟨k, there, -⟩ := h
  rw [leaf?_add_leaf, if_neg (Nat.ne_of_lt (lt_size_of_leaf? there))]

theorem Stands.released {x y : PartId} {l : Leaf} {name : String} (h : Stands c.assembly y)
    (leaf : c.assembly.leaf? x = some l) (role : l.role = .displacement name) :
    Stands (Build.released r x l c).assembly y := by
  rw [released_assembly]
  exact h.setLeaf leaf fun _ => .inr ⟨name, role⟩

theorem BindsLeaf.stands {x y : PartId} {l : Leaf} {b : Binding} {res : Result Unit}
    (binds : BindsLeaf r x l b c res c') (leaf : c.assembly.leaf? x = some l) (h : Stands c.assembly y) :
    Stands c'.assembly y := by
  have empty := leaf?_released (r := r) leaf
  cases binds with
  | unchanged => exact h
  | called => exact h
  | params p' role =>
      refine h.setLeaf leaf fun standing => .inl (standing.resolve_right ?_)
      rintro ⟨name, hr⟩
      rw [role] at hr
      cases hr
  | forwarded => exact h.setLeaf leaf fun _ => .inl rfl
  | redirected role => exact (h.released leaf role).setLeaf empty fun _ => .inl rfl
  | emptied role => exact h.released leaf role
  | lost role _ creation =>
      rw [creation.assembly]
      exact h.released leaf role
  | replaced role _ creation =>
      rw [Context.edit_assembly, creation.assembly]
      exact (h.released leaf role).setLeaf empty fun _ => .inr ⟨_, role⟩

theorem Binds.stands {x y : PartId} {b : Binding} (binds : Binds r x b c c') (h : Stands c.assembly y) :
    Stands c'.assembly y := by
  induction binds with
  | refl => exact h
  | remark _ _ _ ih => exact ih
  | leaf _ _ leaf binds ih => exact binds.stands leaf ih

theorem Step.stands {x : PartId} (step : Step r c c') (h : Stands c.assembly x) : Stands c'.assembly x := by
  cases step with
  | message => exact h
  | mark mark => cases mark <;> exact h
  | note note =>
      cases note with
      | child => exact h.congr (leaf?_child _ _)
      | socket => exact h.congr (leaf?_socket _ _)
      | edge => exact h.congr (leaf?_edge _)
  | share shares => cases shares <;> exact h
  | composite g => exact h.congr (leaf?_add_composite _)
  | forward role => exact h.add _
  | refused _ creation =>
      rw [creation.assembly]
      exact h
  | create _ _ creation =>
      rw [Context.edit_assembly, creation.assembly]
      exact h.add _
  | literal binds => exact binds.stands h
  | passes passes =>
      cases passes with
      | nothing => exact h
      | handle _ _ binds => exact binds.stands h

theorem Steps.stands {x : PartId} (steps : Steps r c c') (h : Stands c.assembly x) : Stands c'.assembly x := by
  induction steps with
  | refl => exact h
  | tail _ step ih => exact step.stands ih

def Founded (harvest : Harvest) (a : Assembly) : Prop := ∀ k x, harvest.roots.get k = some x → Stands a x

theorem Works.founded {harvest harvest' : Harvest} (works : Works W harvest c harvest' c')
    (founded : Founded harvest c.assembly) : Founded harvest' c'.assembly := by
  have kept {harvest harvest' : Harvest} {c c' : Context σ} (steps : Steps W.renderer c c')
      (roots : harvest'.roots = harvest.roots) (founded : Founded harvest c.assembly) :
      Founded harvest' c'.assembly := fun k x hx => steps.stands (founded k x (by rw [← roots]; exact hx))
  induction works with
  | trans _ _ ih₁ ih₂ => exact ih₂ (ih₁ founded)
  | @root harvest kind c x h holds =>
      intro k y hy
      by_cases hk : kind = k
      · subst hk
        rw [PerKind.get_set_self] at hy
        cases hy
        exact HoldsSome.stands ⟨h, holds⟩
      · rw [PerKind.get_set_of_ne _ hk] at hy
        exact founded k y hy
  | refl | more => exact founded
  | mark harvest c mark => exact kept (.single (.mark mark)) rfl founded
  | inside harvest known run => exact kept run.steps rfl founded
  | elsewhere harvest run => exact kept (run .asking 0 0).steps rfl founded
  | own harvest inner => exact kept ((ReflTransGen.single (.composite _)).trans inner.steps) rfl founded
  | wrap harvest holds creation => exact kept (Works.wrap harvest holds creation).steps rfl founded
  | wrapFailed harvest holds creation => exact kept (Works.wrapFailed harvest holds creation).steps rfl founded

/-! ## How a load ends -/

/-- What a load hands over, and where it ends, once its groups have been built. -/
inductive Ends (r : Renderer σ) (harvest : Harvest) (c : Context σ) : LoadResult → Context σ → Prop
  | empty {c' : Context σ} (none : ∀ k, harvest.roots.get k = none) : Ends r harvest c {} c'
  | handOver {e : Event} (resolves : harvest.Resolves) (message : IsMessage e) :
      Ends r harvest c (.ofAssembly c.assembly harvest.parts harvest.roots)
        ((releasedAll r (LoadResult.left c.assembly harvest.parts) c).push e)

theorem Harvest.all_isNone {harvest : Harvest} :
    harvest.roots.toList.all Option.isNone ↔ ∀ k, harvest.roots.get k = none := by
  simp only [PerKind.toList, List.all_cons, List.all_nil, Bool.and_true, Bool.and_eq_true,
    Option.isNone_iff_eq_none]
  constructor
  · rintro ⟨surface, displacement⟩ k
    cases k
    · exact surface
    · exact displacement
  · exact fun h => ⟨h .surface, h .displacement⟩

/-- A selection is loaded by building its groups. -/
theorem after_loadSelection_ends {s : Selection} {p : Place} :
    After (loadSelection s) (W.at p) c fun result c' => ∃ harvest c₁,
      (Group.ofSelected s.selected).foldlM buildGroup {} (W.at p) c = .ok (harvest, c₁) ∧
        Ends W.renderer harvest c₁ result c' := by
  rw [loadSelection, after_bind]
  intro harvest c₁ reached
  split
  · next none =>
    rw [after_bind, after_catalog, after_bind, after_warn, after_bind, after_assembly, after_bind,
      after_releaseParts, after_pure]
    exact ⟨harvest, c₁, reached, .empty (Harvest.all_isNone.1 none)⟩
  · next resolves =>
    rw [handOver, after_bind, after_assembly]
    dsimp only
    rw [after_bind, after_releaseParts, after_bind, after_emit, after_pure]
    exact ⟨harvest, c₁, reached, .handOver (Bool.eq_false_iff.2 resolves) (.finished _ _ _)⟩

end Build

/-- A load that returns has built its groups. -/
theorem Loader.builds_of_load {l : Loader} {d : Document} {options : LoadOptions} {fileExists : String → Bool}
    {s : σ} {o : Outcome σ} (loaded : l.load d options fileExists r s = some o) :
    ∃ harvest c c', l.builds d options fileExists r s (l.groups d options) = .ok (harvest, c) ∧
      Works (l.env d options fileExists r) {} { system := s } harvest c ∧
      Ends r harvest c o.result c' ∧ o.journal = c'.journal.reverse := by
  have ended : After (loadDocument options.targets) (l.env d options fileExists r) { system := s } fun result c' =>
      ∃ harvest c, l.builds d options fileExists r s (l.groups d options) = .ok (harvest, c) ∧
        Ends r harvest c result c' := by
    rw [loadDocument, after_bind, after_catalog]
    dsimp only
    rw [after_within]
    split
    · next empty =>
      rw [after_bind, after_warn, after_pure]
      refine ⟨{}, { system := s }, ?_, .empty fun k => PerKind.get_both none k⟩
      have nothing : (Selection.choose (l.catalog d) options.targets).selected = [] := List.isEmpty_iff.1 empty
      unfold Loader.builds Loader.groups
      rw [nothing]
      rfl
    · exact after_loadSelection_ends
  obtain ⟨c', built, -, journal⟩ := built_of_load loaded
  obtain ⟨harvest, c, builds, ends⟩ := ended _ _ built
  exact ⟨harvest, c, c', builds, after_buildGroups _ _ _ _ builds, ends, journal⟩

/-! ## Results -/

namespace LoadResult

variable {a : Assembly} {parts : List PartId} {roots : PerKind (Option PartId)} {k : OutputKind}

theorem lt_of_rootIndex {i : Nat} (h : (ofAssembly a parts roots).rootIndices.get k = some i) :
    i < (ofAssembly a parts roots).nodes.length := by
  change (PerKind.map _ _).get k = some i at h
  rw [PerKind.get_map] at h
  obtain ⟨g, -, found⟩ := Option.bind_eq_some_iff.1 h
  exact (List.findIdx?_eq_some_iff_getElem.1 found).1

/-- The node of a root leaf is the root of the result, if it is handed over. -/
theorem root?_of_mem {x : PartId} {g : Handle} (root : roots.get k = some x) (holds : Holds a x g)
    (mem : g ∈ (ofAssembly a parts roots).nodes) : (ofAssembly a parts roots).root? k = some g := by
  have handle : rootHandle? a (roots.get k) = some g := by rw [root]; exact holds
  obtain ⟨i, found⟩ : ∃ i, (ofAssembly a parts roots).nodes.findIdx? (· = g) = some i := by
    rw [← Option.isSome_iff_exists, List.findIdx?_isSome, List.any_eq_true]
    exact ⟨g, mem, decide_eq_true rfl⟩
  obtain ⟨hlt, same, -⟩ := List.findIdx?_eq_some_iff_getElem.1 found
  have index : (ofAssembly a parts roots).rootIndices.get k = some i := by
    change (PerKind.map _ _).get k = some i
    rw [PerKind.get_map, handle]
    exact found
  rw [root?, index, Option.bind_some, List.getElem?_eq_getElem hlt, of_decide_eq_true same]

end LoadResult

/-- If no root leaf has been found, a load hands over nothing. Else each root leaf holds a node in the end, or is a
displacement that has lost its constant, and the node that it holds is the root of the result, unless the load has
deleted that node; a calm load (see `calm_of_load`) has done so only if the node was the constant of a displacement. -/
theorem roots_resolve (l : Loader) (d : Document) (options : LoadOptions) (fileExists : String → Bool)
    (r : Renderer σ) (s : σ) (o : Outcome σ) (loaded : l.load d options fileExists r s = some o) :
    ∃ harvest c, l.builds d options fileExists r s (l.groups d options) = .ok (harvest, c) ∧
      ((∀ k, harvest.roots.get k = none) → o.result = {}) ∧
      (∀ k i, o.result.rootIndices.get k = some i → i < o.result.nodes.length) ∧
      ∀ k x, harvest.roots.get k = some x → ∃ leaf, c.assembly.leaf? x = some leaf ∧
        match leaf.hold.handle? with
        | some h => o.result.root? k = some h ∨
            h ∈ deleted o.journal ∧ (Calm o.journal.reverse → Displaced o.journal h)
        | none => ∃ name, leaf.role = .displacement name := by
  obtain ⟨harvest, c, c', builds, works, ends, journal⟩ := Loader.builds_of_load loaded
  have founded : Founded harvest c.assembly := works.founded fun k x hx => by
    rw [PerKind.get_both] at hx
    cases hx
  refine ⟨harvest, c, builds, ?_⟩
  rw [journal, List.reverse_reverse]
  obtain ⟨result, t, j⟩ := o
  dsimp only at ends ⊢
  clear loaded journal
  cases ends with
  | empty none =>
      refine ⟨fun _ => rfl, fun k i hi => ?_, fun k x hx => ?_⟩
      · rw [PerKind.get_both] at hi
        cases hi
      · rw [none] at hx
        cases hx
  | @handOver e resolves message =>
      have loads := Loads.handOver works resolves message
      refine ⟨fun none => ?_, fun k i => LoadResult.lt_of_rootIndex, fun k x hx => ?_⟩
      · exact absurd (Harvest.all_isNone.2 none) (Bool.eq_false_iff.1 resolves)
      · obtain ⟨leaf, there, standing⟩ := founded k x hx
        refine ⟨leaf, there, ?_⟩
        cases held : leaf.hold.handle? with
        | none => exact standing.resolve_left (by rw [held]; nofun)
        | some h =>
            have holds : Holds c.assembly x h := by rw [Holds, there]; exact held
            have acc := works.steps.accounted (accounted_start s)
            have kept := (moves_releasedAll (r := r) (LoadResult.left c.assembly harvest.parts) c).suffix
            have suffix := kept.trans (List.suffix_cons e _)
            have known := (suffix.sublist.filterMap Event.created?).subset (acc.held holds)
            by_cases here : h ∈ (LoadResult.ofAssembly c.assembly harvest.parts harvest.roots).nodes
            · exact .inl (LoadResult.root?_of_mem hx holds here)
            · have gone := (List.mem_append.1 (loads.perm_created.symm.subset known)).resolve_left here
              refine .inr ⟨?_, fun calm => ?_⟩
              · rw [deleted, List.filterMap_reverse, List.mem_reverse]
                exact gone
              · have traced := (works.steps.traces (traced_start s) (accounted_start s)).traced
                have same := works.releasedAll_left (r := r) (calm.2.of_suffix kept)
                have handed := loads.perm_owned
                change (owned (releasedAll r _ c).assembly).Perm _ at handed
                rw [same] at handed
                rcases traced.held holds with own | ⟨y, name, mem⟩
                · exact absurd (handed.subset own) here
                · refine ⟨y, name, List.mem_reverse.2 ((kept.trans (List.suffix_cons e _)).subset mem)⟩

/-- The surface in the graph of `thing` stands for the constant of `bump`, which the height of `x` replaces. -/
def replacedRoot : Document where
  nodeDefs := [
    { name := "ND_surface", node := "surface", type := "surfaceshader"
      inputs := [{ name := "bsdf", type := "BSDF" }] },
    { name := "ND_displacement", node := "displacement", type := "displacementshader"
      inputs := [{ name := "displacement", type := "float" }] },
    { name := "ND_thing", node := "thing", type := "surfaceshader", nodeGraph := some "NG_thing"
      inputs := [{ name := "height", type := "float", value := some "0.5" }] }]
  nodeGraphs := [
    { name := "NG_thing", nodeDef := some "ND_thing"
      nodes := [
        { name := "s", category := "surface", type := "surfaceshader"
          inputs := [{ name := "bsdf", type := "BSDF", nodeName := some "bump" }] },
        { name := "bump", category := "displacement", type := "displacementshader"
          inputs := [{ name := "displacement", type := "float", interfaceName := some "height" }] }]
      outputs := [{ name := "out", type := "surfaceshader", nodeName := some "s" }] }]
  nodes := [
    { name := "x", category := "thing", type := "surfaceshader"
      inputs := [{ name := "height", type := "float", value := some "0.75" }] }]
  outputs := [{ name := "o", type := "surfaceshader", nodeName := some "x" }]

/-- The leaf of the surface is a root and holds a node in the end, but one that has been deleted. -/
theorem roots_resolve_replacedRoot :
    ∃ o harvest c x leaf, Loader.load {} replacedRoot {} (fun _ => false) Recorder.renderer {} = some o ∧
      Loader.builds {} replacedRoot {} (fun _ => false) Recorder.renderer {} (Loader.groups {} replacedRoot {}) =
        .ok (harvest, c) ∧
      harvest.roots.get .surface = some x ∧ c.assembly.leaf? x = some leaf ∧ leaf.hold.handle? = some ⟨0⟩ ∧
        ⟨0⟩ ∈ deleted o.journal ∧ Displaced o.journal ⟨0⟩ := by
  have evaluated : (Loader.load {} replacedRoot {} (fun _ => false) Recorder.renderer {}).map
      (fun o => (decide (Calm o.journal.reverse), o.result.root? .surface)) = some (true, none) := by decide +kernel
  have held : (Loader.builds {} replacedRoot {} (fun _ => false) Recorder.renderer {}
      (Loader.groups {} replacedRoot {})).toOption.map (fun p => (p.1.roots.get .surface).map fun x =>
        (p.2.assembly.leaf? x).map fun leaf => leaf.hold.handle?) = some (some (some (some ⟨0⟩))) := by decide +kernel
  obtain ⟨o, loaded, same⟩ := Option.map_eq_some_iff.1 evaluated
  obtain ⟨calm, root⟩ := Prod.mk.inj same
  obtain ⟨harvest, c, builds, -, -, roots⟩ :=
    roots_resolve {} replacedRoot {} (fun _ => false) Recorder.renderer {} o loaded
  rw [builds, Except.toOption, Option.map_some, Option.some.injEq] at held
  obtain ⟨x, hx, held⟩ := Option.map_eq_some_iff.1 held
  obtain ⟨leaf, there, held⟩ := Option.map_eq_some_iff.1 held
  obtain ⟨leaf', there', standing⟩ := roots .surface x hx
  cases there.symm.trans there'
  rw [held] at standing
  obtain ⟨gone, displaced⟩ := standing.resolve_left (by rw [root]; nofun)
  exact ⟨o, harvest, c, x, leaf, loaded, builds, hx, there, held, gone, displaced (of_decide_eq_true calm)⟩

/-- So a root leaf may have no root in the result, although the result is not empty. -/
theorem replacedRoot_has_no_root :
    ∃ o harvest c, Loader.load {} replacedRoot {} (fun _ => false) Recorder.renderer {} = some o ∧
      Loader.builds {} replacedRoot {} (fun _ => false) Recorder.renderer {} (Loader.groups {} replacedRoot {}) =
        .ok (harvest, c) ∧
      (harvest.roots.get .surface).isSome ∧ o.result.root? .surface = none ∧ o.result ≠ {} := by
  have evaluated : (Loader.load {} replacedRoot {} (fun _ => false) Recorder.renderer {}).map
      (fun o => (o.result.root? .surface, decide (o.result ≠ {}))) = some (none, true) := by decide +kernel
  have recorded : (Loader.builds {} replacedRoot {} (fun _ => false) Recorder.renderer {}
      (Loader.groups {} replacedRoot {})).toOption.map (fun p => (p.1.roots.get .surface).isSome) = some true := by
    decide +kernel
  obtain ⟨o, loaded, same⟩ := Option.map_eq_some_iff.1 evaluated
  obtain ⟨root, some⟩ := Prod.mk.inj same
  obtain ⟨harvest, c, builds, there⟩ := exists_of_toOption recorded
  exact ⟨o, harvest, c, loaded, builds, there, root, of_decide_eq_true some⟩

end MaterialGraph
