import MaterialGraph.Proofs.Course.Loads
import MaterialGraph.Proofs.Guarding
import MaterialGraph.Proofs.Misfits

/-!
# Values that stand for a surface

The root of a surface is the leaf behind the selected output, or a passthrough node that is fed by that leaf alone.

* `Wraps` : a leaf owns such a node.
* `IsRoot` : what the root of an output can be.
* `Explained` : every root that has been found is that of a selected output.
* `surface_coercion_of_load` : what the roots of a load are.
-/

namespace MaterialGraph

set_option autoImplicit false

open Build Assembly

/-- A passthrough node without a name that has a handle for its only input. -/
def RecordedNode.passing (h : Handle) : RecordedNode := ({ type := .passthrough } : RecordedNode).bind .color (.node h)

def Assembly.HasKey (a : Assembly) (id : PartId) (key : GraphKey) : Prop :=
  ∃ k, a.composite? id = some k ∧ k.graph.key = key

theorem Assembly.HasKey.extends {a a' : Assembly} {id : PartId} {key : GraphKey} (h : a.HasKey id key)
    (more : Extends a a') : a'.HasKey id key :=
  let ⟨_, composite, same⟩ := h
  let ⟨k', composite', graph⟩ := more.composite composite
  ⟨k', composite', graph ▸ same⟩

variable {s : Recorder} {C : Catalog} {W : Env Recorder} {c c₁ c' : Context Recorder} {m : Nat} {p : Place}
  {id x y : PartId} {h : Handle} {k : OutputKind} {o : Output} {parts : List PartId}
  {selected : List (OutputKind × Candidate)}

/-! ## Leaves that wrap another -/

/-- A leaf owns a node of this load through which a handle passes. -/
def Wraps (c : Context Recorder) (y : PartId) (h : Handle) : Prop :=
  ∃ r, c.assembly.leaf? y = some ⟨.owned r, .wrap⟩ ∧ r ∈ created c.journal ∧ c.system.node? r = some (.passing h)

theorem Wraps.retained {S : PartId → Prop} (wraps : Wraps c y h) (suffix : c.journal <:+ c'.journal)
    (retains : Retains S c c') (hy : S y) : Wraps c' y h := by
  obtain ⟨r, leaf, new, node⟩ := wraps
  refine ⟨r, (retains.leaf hy).trans leaf, ?_, (retains.node hy leaf rfl).trans node⟩
  exact (suffix.sublist.filterMap _).subset new

/-- A new leaf wraps what it has been created for. -/
theorem wraps_of_creates {l : Leaf}
    (creation : CreatesLeaf Recorder.renderer .passthrough .wrap [(.color, .node h)] none c (.ok l) c') :
    Wraps (c'.edit (.add (.leaf l))) c'.assembly.size h := by
  obtain ⟨rfl, node⟩ := creation.dresses
  refine ⟨⟨c.system.created⟩, ?_, ?_, node⟩
  · rw [Context.edit_assembly, leaf?_add_leaf, if_pos rfl]
  · cases creation with
    | done reply setup =>
        refine (setup.settings.moves.suffix.sublist.filterMap _).subset ?_
        change _ ∈ created (.created .passthrough (Recorder.create .passthrough c.system).1 :: c.journal)
        rw [show (Recorder.create .passthrough c.system).1 = .ok ⟨c.system.created⟩ from reply]
        exact List.mem_cons_self

section

variable (recording : W.renderer = Recorder.renderer) (guarded : Guarded s W.catalog c) (there : m ≤ c.assembly.size)
  (child : c.assembly.IsChild x) (holds : Holds c.assembly x h)

include recording guarded child holds

/-- A node is created that is fed by what a child holds. -/
theorem secluded_of_creates {res : Result Leaf}
    (creation : CreatesLeaf W.renderer .passthrough .wrap [(.color, .node h)] none c res c') : Secluded s c' := by
  rw [recording] at creation
  refine creation.secluded guarded.secluded fun key g mem => ?_
  cases List.mem_singleton.1 mem
  exact genuine_of_below guarded.proper.orderly.forest guarded.secluded (.inl child) .refl holds

theorem Onward.wrapFailed {e : LoadError}
    (creation : CreatesLeaf W.renderer .passthrough .wrap [(.color, .node h)] none c (.error e) c') :
    Onward s W.catalog m c c' where
  guarded := ⟨guarded.proper.works recording (.wrapFailed {} holds creation),
    secluded_of_creates recording guarded child holds creation⟩
  more := creation.assembly ▸ .refl _
  suffix := creation.moves.suffix
  children hx := by
    rw [creation.assembly]
    exact hx
  retains := .creates guarded.proper.keeps (recording ▸ creation)

include there

theorem Onward.wrap {l : Leaf}
    (creation : CreatesLeaf W.renderer .passthrough .wrap [(.color, .node h)] none c (.ok l) c') :
    Onward s W.catalog m c (c'.edit (.add (.leaf l))) where
  guarded := by
    refine ⟨guarded.proper.works recording (.wrap {} holds creation),
      (secluded_of_creates recording guarded child holds creation).addLeaf (fun _ shared => ?_) fun _ plain => ?_⟩
    · rw [creation.assembly] at shared
      exact Nat.lt_irrefl _ (guarded.proper.orderly.lt_of_sharing (guarded.proper.orderly.sharing_of_mem_shared shared))
    · cases creation
      exact absurd rfl plain
  more := by
    rw [Context.edit_assembly, creation.assembly]
    exact .add _ _
  suffix := creation.moves.suffix.trans (List.suffix_cons _ _)
  children hx := by
    rw [Context.edit_assembly, creation.assembly]
    exact (child?_add_leaf l _).trans hx
  retains :=
    (Retains.creates guarded.proper.keeps (recording ▸ creation)).trans (.add (creation.assembly ▸ there) _)

/-- What stands for a surface is made only of a value that can. -/
theorem Build.after_wrapSurface_wraps {type : String} :
    After (wrapSurface h type) (W.at p) c fun res c' => Onward s W.catalog m c c' ∧
      ∀ y, res = .ok y → type ∈ OutputKind.wrappable ∧ Wraps c' y h := by
  rw [wrapSurface]
  split
  · next wrappable =>
    rw [after_andThen]
    refine after_createLeaf.mono fun res c₁ creation => ⟨?_, ?_⟩
    · rintro l rfl
      rw [after_bind, after_addPart, after_pure]
      refine ⟨.wrap recording guarded there child holds creation, ?_⟩
      rintro _ ⟨⟩
      exact ⟨List.contains_iff_mem.1 wrappable, wraps_of_creates (recording ▸ creation)⟩
    · rintro e rfl
      exact ⟨.wrapFailed recording guarded child holds creation, by rintro _ ⟨⟩⟩
  · exact after_pure.2 ⟨.refl m guarded, by rintro _ ⟨⟩⟩

end

/-! ## Roots -/

/-- What the root of an output can be: the leaf behind it, or what stands for a surface in its place. -/
inductive IsRoot (c : Context Recorder) (parts : List PartId) (id : PartId) (k : OutputKind) (o : Output) : PartId → Prop
  | leaf {x : PartId} (behind : c.assembly.leafBehind? id o = some x) (fits : k = .surface → o.type = "surfaceshader") :
      IsRoot c parts id k o x
  | wrap {x y : PartId} {h : Handle} (behind : c.assembly.leafBehind? id o = some x) (holds : Holds c.assembly x h)
      (surface : k = .surface) (wrappable : o.type ∈ OutputKind.wrappable) (wraps : Wraps c y h) (added : y ∈ parts) :
      IsRoot c parts id k o y

theorem IsRoot.mono {more : List PartId} (root : IsRoot c parts id k o y) (sub : parts ⊆ more) :
    IsRoot c more id k o y := by
  cases root with
  | leaf behind fits => exact .leaf behind fits
  | wrap behind holds surface wrappable wraps added => exact .wrap behind holds surface wrappable wraps (sub added)

theorem Onward.leafBehind? (onward : Onward s C m c c') (behind : c.assembly.leafBehind? id o = some x) :
    c'.assembly.leafBehind? id o = some x :=
  leafBehind?_kept onward.more onward.children behind

/-- A root stays what it is as long as its leaves do. -/
theorem IsRoot.retained {S : PartId → Prop} (root : IsRoot c parts id k o y) (more : Extends c.assembly c'.assembly)
    (suffix : c.journal <:+ c'.journal)
    (children : ∀ {id name x}, c.assembly.child? id name = some x → c'.assembly.child? id name = some x)
    (retains : Retains S c c') (leaf : ∀ x, c.assembly.leafBehind? id o = some x → S x)
    (wrap : ∀ y ∈ parts, (c.assembly.leaf? y).isSome → S y) : IsRoot c' parts id k o y := by
  cases root with
  | leaf behind fits => exact .leaf (leafBehind?_kept more children behind) fits
  | wrap behind holds surface wrappable wraps added =>
      have held := (Holds.congr (retains.leaf (leaf _ behind))).2 holds
      have there : S y := by
        obtain ⟨r, there, -⟩ := wraps
        exact wrap y added (by rw [there]; rfl)
      exact .wrap (leafBehind?_kept more children behind) held surface wrappable (wraps.retained suffix retains there) added

theorem IsRoot.onward (root : IsRoot c parts id k o y) (onward : Onward s C c.assembly.size c c') :
    IsRoot c' parts id k o y :=
  root.retained onward.more onward.suffix onward.children onward.retains
    (fun _ behind => lt_size_of_isSome (leafBehind?_eq_some.1 behind).1) fun _ _ => lt_size_of_isSome

section

variable (recording : W.renderer = Recorder.renderer) (guarded : Guarded s W.catalog c) (there : m ≤ c.assembly.size)

include recording guarded there

/-- The root that is found for an output. -/
theorem Build.after_rootOf_root {g : Group} :
    After (rootOf g id k o) (W.at p) c fun res c' => Onward s W.catalog m c c' ∧
      ∀ y, res.1 = some y → IsRoot c' res.2 id k o y := by
  rw [rootOf, after_bind]
  refine (after_outputLeaf_behind recording guarded there).mono ?_
  rintro found c₁ ⟨onward, behind⟩
  cases found with
  | none =>
      dsimp only
      rw [after_bind, after_warn, after_pure]
      exact ⟨onward.push (.warning _), by rintro _ ⟨⟩⟩
  | some x =>
      have behind := behind x rfl
      dsimp only
      rw [after_bind, after_assembly]
      split
      · rw [after_bind, after_warn, after_pure]
        exact ⟨onward.push (.warning _), by rintro _ ⟨⟩⟩
      · next h holds =>
        split
        · next other =>
          rw [after_bind]
          refine (after_wrapSurface_wraps recording onward.guarded (Nat.le_refl _)
            (below_of_leafBehind? behind).1 holds).mono ?_
          rintro res c₂ ⟨later, wraps⟩
          have whole := onward.trans (later.mono (onward.size there))
          cases res with
          | error e =>
              dsimp only
              rw [after_bind, after_warn, after_pure]
              exact ⟨whole.push (.warning _), by rintro _ ⟨⟩⟩
          | ok y =>
              refine after_pure.2 ⟨whole, ?_⟩
              rintro _ ⟨⟩
              obtain ⟨wrappable, wraps⟩ := wraps y rfl
              have old := lt_size_of_isSome (leafBehind?_eq_some.1 behind).1
              have held := (Holds.congr (later.retains.leaf old)).2 holds
              exact .wrap (later.leafBehind? behind) held other.1 wrappable wraps (List.mem_singleton_self y)
        · next plain =>
          refine after_pure.2 ⟨onward, ?_⟩
          rintro _ ⟨⟩
          exact .leaf behind fun surface => Decidable.byContradiction fun other => plain ⟨surface, other⟩

end

/-- The root of a kind has been found for a selected output, in a composite for the graph of that output which is to be
handed over. -/
structure FoundFor (c : Context Recorder) (parts : List PartId) (k : OutputKind) (cand : Candidate) (id y : PartId) :
    Prop where
  part : id ∈ parts
  site : c.assembly.HasKey id cand.graph.key
  marked : Event.edited (.ended (.root id k) true) ∈ c.journal
  root : IsRoot c parts id k cand.output y

/-- Every root has been found for an output that is selected. -/
def Explained (selected : List (OutputKind × Candidate)) (harvest : Harvest) (c : Context Recorder) : Prop :=
  ∀ k y, harvest.roots.get k = some y → ∃ cand id, (k, cand) ∈ selected ∧ FoundFor c harvest.parts k cand id y

theorem FoundFor.mono {cand : Candidate} {more : List PartId} (found : FoundFor c parts k cand id y)
    (sub : parts ⊆ more) : FoundFor c more k cand id y :=
  ⟨sub found.part, found.site, found.marked, found.root.mono sub⟩

theorem FoundFor.onward {cand : Candidate} (found : FoundFor c parts k cand id y)
    (onward : Onward s C c.assembly.size c c') : FoundFor c' parts k cand id y :=
  ⟨found.part, found.site.extends onward.more, onward.suffix.subset found.marked, found.root.onward onward⟩

theorem Explained.onward {harvest : Harvest} (explained : Explained selected harvest c)
    (onward : Onward s C c.assembly.size c c') {more : List PartId} :
    Explained selected { harvest with parts := harvest.parts ++ more } c' := fun k y hy =>
  let ⟨cand, id, mem, found⟩ := explained k y hy
  ⟨cand, id, mem, (found.onward onward).mono (List.subset_append_left _ _)⟩

/-! ## Groups -/

/-- What is known while the roots of a group are found in its composite. -/
structure Rooting (s : Recorder) (C : Catalog) (selected : List (OutputKind × Candidate)) (g : Group) (id : PartId)
    (harvest : Harvest) (c : Context Recorder) : Prop where
  guarded : Guarded s C c
  explained : Explained selected harvest c
  part : id ∈ harvest.parts
  site : c.assembly.HasKey id g.graph.key

theorem Rooting.onward {g : Group} {harvest : Harvest} (rooting : Rooting s C selected g id harvest c)
    (onward : Onward s C c.assembly.size c c') (more : List PartId) :
    Rooting s C selected g id { harvest with parts := harvest.parts ++ more } c' where
  guarded := onward.guarded
  explained := rooting.explained.onward onward
  part := List.mem_append_left _ rooting.part
  site := rooting.site.extends onward.more

theorem Build.after_addRoot_rooting (recording : W.renderer = Recorder.renderer) {g : Group} {harvest : Harvest}
    {cand : Candidate} (mem : (k, cand) ∈ selected) (same : cand.graph.key = g.graph.key)
    (rooting : Rooting s W.catalog selected g id harvest c) :
    After (addRoot g id harvest (k, cand.output)) (W.at p) c fun harvest' c' =>
      Rooting s W.catalog selected g id harvest' c' := by
  rw [addRoot, after_bind, after_asTask]
  have begun : Onward s W.catalog c.assembly.size c (c.edit (.began (.root id k))) := .mark rooting.guarded (.began _)
  refine (after_rootOf_root recording begun.guarded (Nat.le_refl c.assembly.size)).mono ?_
  rintro ⟨root, added⟩ c₁ ⟨found, isRoot⟩
  have ended : Onward s W.catalog c₁.assembly.size c₁ (c₁.edit (.ended (.root id k) root.isSome)) :=
    .mark found.guarded (.ended _ _)
  have done := begun.trans (found.trans (ended.mono found.more.size))
  cases root with
  | none =>
      have kept := rooting.onward done []
      rw [List.append_nil] at kept
      exact after_pure.2 kept
  | some y =>
      have kept := rooting.onward done added
      refine after_pure.2 ⟨kept.guarded, fun k' y' hy => ?_, kept.part, kept.site⟩
      by_cases hk : k = k'
      · subst hk
        rw [PerKind.get_set_self] at hy
        cases hy
        have root := ((isRoot y rfl).onward ended).mono (List.subset_append_right harvest.parts added)
        exact ⟨cand, id, mem, kept.part, same ▸ kept.site, List.mem_cons_self, root⟩
      · rw [PerKind.get_set_of_ne _ hk] at hy
        exact kept.explained k' y' hy

/-- The composite of a group is new if the group comes from a shader reference, and stands for the graph of the
group. -/
theorem Build.after_groupComposite_onward (recording : W.renderer = Recorder.renderer) {g : Group}
    (guarded : Guarded s W.catalog c) :
    After (groupComposite g) (W.at p) c fun res c' => Onward s W.catalog c.assembly.size c c' ∧
      ∀ id, res = .ok id → (g.shaderRef.isSome → c.assembly.size ≤ id) ∧
        (Houses W c' → c'.assembly.HasKey id g.graph.key) := by
  have run {ph : Phase} {id : PartId} {c c₁ : Context Recorder} {n : Nat} (guarded : Guarded s W.catalog c)
      (there : n ≤ c.assembly.size) (run : Run W ph id n c c₁) : Onward s W.catalog n c c₁ :=
    .run recording run guarded (Nat.le_refl n) there
  rw [groupComposite]
  split
  · next graph ref own =>
    refine (after_buildComposite sound_part).mono fun res c₁ composes => ?_
    cases composes with
    | failed barren =>
        have fails : Run W .asking 0 c.assembly.size c c₁ := .barren barren
        exact ⟨run guarded (Nat.le_refl _) fails, by rintro _ ⟨⟩⟩
    | done inner =>
        have added : Onward s W.catalog c.assembly.size c _ := .composite guarded (Nat.le_refl _) g.graph
        have built := run added.guarded (added.size (Nat.le_refl _)) inner
        refine ⟨added.trans built, ?_⟩
        rintro _ ⟨⟩
        refine ⟨fun _ => Nat.le_refl _, fun _ => ?_⟩
        obtain ⟨k, composite, graph⟩ := (hasGraph_added g.graph).extends built.more
        exact ⟨k, composite, congrArg Graph.key graph⟩
  · next d graph none =>
    rw [after_bind]
    refine after_topComposite.mono ?_
    rintro t c₁ ⟨top, first⟩
    have found := run guarded (Nat.le_refl _) (first .asking 0 _)
    rw [after_andThen]
    refine (after_buildOutputs (s := c.assembly.size) sound_part).mono ?_
    rintro res c₂ ⟨second, -⟩
    have built := found.trans (run found.guarded (found.size (Nat.le_refl _)) second)
    refine ⟨fun _ _ => after_pure.2 ⟨built, ?_⟩, fun _ _ => ⟨built, by rintro _ ⟨⟩⟩⟩
    rintro _ ⟨⟩
    refine ⟨fun some => absurd some (by rw [none]; exact Bool.false_ne_true), fun houses => ?_⟩
    obtain ⟨k, composite, same⟩ := houses.top t (second.steps.extends.top top)
    exact ⟨k, composite, by rw [same, graph]; rfl⟩
  · next n graph none =>
    refine (after_freeStandingGraph sound_part).mono ?_
    rintro res c₁ ⟨reaches, known⟩
    refine ⟨run guarded (Nat.le_refl _) (reaches .asking 0 _), fun id hid => ?_⟩
    refine ⟨fun some => absurd some (by rw [none]; exact Bool.false_ne_true), fun houses => ?_⟩
    obtain ⟨graph', -, named, k, composite, same⟩ := houses.graph _ _ (known id hid)
    refine ⟨k, composite, ?_⟩
    rw [same, graph]
    exact congrArg GraphKey.named named

/-- Groups of one key have graphs of one key. -/
theorem Group.graph_key {g g' : Group} (same : g.key = g'.key) : g.graph.key = g'.graph.key := by
  obtain ⟨graph, _, _⟩ := g
  obtain ⟨graph', _, _⟩ := g'
  cases graph <;> cases graph' <;> simp_all [Group.key, Graph.key]

theorem Build.after_reportGroup_onward {e : LoadError} (onward : Onward s W.catalog m c c₁) :
    After (reportGroup e) (W.at p) c₁ fun _ c' => Onward s W.catalog m c c' := by
  unfold reportGroup
  split
  · rw [after_remark]
    exact onward.push (.remark _ _)
  · rw [after_warn]
    exact onward.push (.warning _)

theorem Build.after_buildGroup_explained (recording : W.renderer = Recorder.renderer) {g : Group} {harvest : Harvest}
    (own : ∀ x ∈ selected, x.2.IsOf W.catalog) (mem : g ∈ Group.ofSelected selected) (houses : Houses W c)
    (settled : Settled c) (faithful : Faithful c) (guarded : Guarded s W.catalog c)
    (explained : Explained selected harvest c) :
    After (buildGroup harvest g) (W.at p) c fun harvest' c' =>
      Guarded s W.catalog c' ∧ Explained selected harvest' c' := by
  rw [buildGroup, after_bind]
  refine ((after_groupComposite_onward recording guarded).and
    (course_groupComposite own mem houses settled faithful)).mono ?_
  rintro res c₁ ⟨⟨onward, site⟩, gathers⟩
  cases res with
  | error e =>
      dsimp only
      rw [after_bind]
      refine (after_reportGroup_onward onward).mono fun _ c₂ told => after_pure.2 ⟨told.guarded, ?_⟩
      have kept : Explained selected { harvest with parts := harvest.parts ++ [] } c₂ := explained.onward told
      rwa [List.append_nil] at kept
  | ok id =>
      obtain ⟨fresh, site⟩ := site id rfl
      have houses₁ : Houses W c₁ := by
        cases gathers with
        | course _ course => exact course.houses houses
      -- once the inputs are set, the roots are found
      have finish {c₂ : Context Recorder} (set : Onward s W.catalog c.assembly.size c c₂)
          (site : c₂.assembly.HasKey id g.graph.key) :
          After (g.outputs.foldlM (addRoot g id) (harvest.add id)) (W.at p) c₂ fun harvest' c' =>
            Guarded s W.catalog c' ∧ Explained selected harvest' c' := by
        refine (after_foldlM (I := fun harvest' c' => Rooting s W.catalog selected g id harvest' c')
          (fun o ho harvest' c' rooting => ?_) ?_).mono fun harvest' c' rooting => ⟨rooting.guarded, rooting.explained⟩
        · obtain ⟨⟨k, cand⟩, chosen, rfl, key⟩ := (Group.collects_ofSelected selected g mem).outputs o ho
          exact after_addRoot_rooting recording chosen (Group.graph_key key) rooting
        · exact ⟨set.guarded, explained.onward set, List.mem_append_right _ (List.mem_singleton_self id), site⟩
      dsimp only
      split
      · next ref through =>
        rw [after_bind]
        refine (after_forM (I := fun c₂ => Onward s W.catalog c.assembly.size c₁ c₂)
          (fun i _ c₂ set => ?_) (.refl _ onward.guarded)).mono fun _ c₂ set =>
            finish (onward.trans set) ((site houses₁).extends set.more)
        have from' := fresh (by rw [through]; rfl)
        exact (after_setBindInput_onward recording set.guarded (set.size onward.more.size) from').mono
          fun _ _ more => set.trans more
      · exact finish onward (site houses₁)

/-! ## Loads -/

/-- The construction of the groups of a load leads to roots that are explained. -/
theorem Build.after_buildGroups_explained (recording : W.renderer = Recorder.renderer) (reachable : s.Reachable)
    (own : ∀ x ∈ selected, x.2.IsOf W.catalog) :
    After ((Group.ofSelected selected).foldlM buildGroup {}) (W.at p) { system := s } fun harvest c' =>
      Guarded s W.catalog c' ∧ Explained selected harvest c' := by
  refine (after_foldlM (I := fun harvest c' =>
    (Guarded s W.catalog c' ∧ Explained selected harvest c') ∧ Houses W c' ∧ Settled c' ∧ Faithful c')
    (fun g mem harvest c kept => ?_) ⟨⟨.start reachable, fun k y hy => ?_⟩, .start s, settled_start s, .start s⟩).mono
      fun _ _ kept => kept.1
  · obtain ⟨⟨guarded, explained⟩, houses, settled, faithful⟩ := kept
    exact ((after_buildGroup_explained recording own mem houses settled faithful guarded explained).and
      (course_buildGroup own mem houses settled faithful)).mono fun _ _ ⟨next, course⟩ =>
        ⟨next, course.houses houses, settled.advances (course.advances faithful), course.steps.moves.faithful faithful⟩
  · rw [PerKind.get_both] at hy
    cases hy

theorem secluded_releasedAll (xs : List PartId) (secluded : Secluded s c) :
    Secluded s (releasedAll Recorder.renderer xs c) :=
  releasedAll_induction (fun leaf before => secluded_released before leaf) xs secluded

theorem composite?_releasedAll {σ : Type} {r : Renderer σ} (xs : List PartId) (d : Context σ) (id : PartId) :
    (releasedAll r xs d).assembly.composite? id = d.assembly.composite? id :=
  releasedAll_induction (P := fun d' => d'.assembly.composite? id = d.assembly.composite? id)
    (fun leaf same => ((rebinds_released leaf).composite id).trans same) xs rfl

/-- What stands below a part that is handed over is not left behind. -/
theorem LoadResult.notMem_left {a : Assembly} (part : id ∈ parts) (below : Below a id x) : x ∉ left a parts := fun hx =>
  (mem_left.1 hx).2 (mem_reachable (List.mem_append_left _ part) below)

/-- The root of a result is held by a root leaf. -/
theorem LoadResult.holds_of_root? {a : Assembly} {roots : PerKind (Option PartId)} {r : Handle}
    (root : (ofAssembly a parts roots).root? k = some r) : ∃ y, roots.get k = some y ∧ Holds a y r := by
  obtain ⟨i, index, node⟩ := Option.bind_eq_some_iff.1 root
  change (PerKind.map _ _).get k = some i at index
  rw [PerKind.get_map] at index
  obtain ⟨h, held, found⟩ := Option.bind_eq_some_iff.1 index
  obtain ⟨hlt, same, -⟩ := List.findIdx?_eq_some_iff_getElem.1 found
  cases (of_decide_eq_true same).symm.trans (Option.some.inj ((List.getElem?_eq_getElem hlt).symm.trans node))
  obtain ⟨l, leaf, handle⟩ := Option.bind_eq_some_iff.1 held
  obtain ⟨y, hy, there⟩ := Option.bind_eq_some_iff.1 leaf
  exact ⟨y, hy, Option.bind_eq_some_iff.2 ⟨l, there, handle⟩⟩

/-- The context in which a load ends that hands something over. -/
def handedOver {σ : Type} (r : Renderer σ) (parts : List PartId) (d : Context σ) (e : Event) : Context σ :=
  (releasedAll r (LoadResult.left d.assembly parts) d).push e

theorem moves_handedOver {σ : Type} {r : Renderer σ} (parts : List PartId) (d : Context σ) {e : Event}
    (message : IsMessage e) : Moves r d (handedOver r parts d e) :=
  (moves_releasedAll _ d).tail (.message message)

/-- What has been found stays there to the end, since it stands below what is handed over. -/
theorem FoundFor.stays {cand : Candidate} {r : Handle} {e : Event} (found : FoundFor c parts k cand id y)
    (keeps : Keeps s c) (message : IsMessage e) (holds : Holds c.assembly y r) :
    FoundFor (handedOver Recorder.renderer parts c e) parts k cand id y ∧
      Holds (handedOver Recorder.renderer parts c e).assembly y r := by
  have retains : Retains (· ∉ LoadResult.left c.assembly parts) c (handedOver Recorder.renderer parts c e) :=
    (retains_releasedAll _ keeps).trans (.push _ _ e)
  have more : Extends c.assembly (handedOver Recorder.renderer parts c e).assembly := extends_releasedAll _ c
  have children {i z : PartId} {name : String} (child : c.assembly.child? i name = some z) :
      (handedOver Recorder.renderer parts c e).assembly.child? i name = some z :=
    (child?_congr (composite?_releasedAll _ c i) name).trans child
  have suffix := (moves_handedOver (r := Recorder.renderer) parts c message).suffix
  have reached {x : PartId} (behind : c.assembly.leafBehind? id cand.output = some x) :
      x ∉ LoadResult.left c.assembly parts :=
    LoadResult.notMem_left found.part (below_of_leafBehind? behind).2
  have there : y ∉ LoadResult.left c.assembly parts := by
    cases found.root with
    | leaf behind => exact reached behind
    | wrap _ _ _ _ _ added => exact LoadResult.notMem_left added .refl
  refine ⟨⟨found.part, found.site.extends more, suffix.subset found.marked, ?_⟩, ?_⟩
  · exact found.root.retained more suffix children retains (fun _ => reached) fun _ added _ =>
      LoadResult.notMem_left added .refl
  · exact (Holds.congr (retains.leaf there)).2 holds

/-- What is known of the context in which a load ends. -/
structure Final (s : Recorder) (out : Outcome Recorder) (c : Context Recorder) : Prop where
  assembly : replay out.journal = c.assembly
  system : out.system = c.system
  journal : out.journal = c.journal.reverse
  history : History Recorder.renderer s c.journal c.system
  orderly : Orderly c
  secluded : Secluded s c

/-- Once a guarded context has been handed over, the journal of the load tells its assembly and its renderer. -/
theorem Guarded.final {out : Outcome Recorder} {e : Event} (guarded : Guarded s C c)
    (history : History Recorder.renderer s c.journal c.system) (message : IsMessage e)
    (journal : out.journal = (handedOver Recorder.renderer parts c e).journal.reverse)
    (system : Recorder.renderer.follow s out.journal = out.system) :
    Final s out (handedOver Recorder.renderer parts c e) := by
  have keeps := (keeps_releasedAll (LoadResult.left c.assembly parts) guarded.proper.keeps).push message
  have orderly := (grows_releasedAll (r := Recorder.renderer) guarded.proper.orderly
    (LoadResult.left c.assembly parts) 0).orderly
  constructor
  case assembly =>
    rw [journal]
    exact keeps.assembly
  case system =>
    rw [← system, journal]
    exact keeps.system
  case journal => exact journal
  case history => exact (moves_handedOver parts c message).history history
  case orderly => exact (Grows.message Recorder.renderer orderly message 0).orderly
  case secluded => exact (secluded_releasedAll _ guarded.secluded).push e

/-- In the end of a load, each root is held by a leaf that has been found for a selected output. -/
theorem found_of_root {l : Loader} {d : Document} {options : LoadOptions} {fileExists : String → Bool}
    (reachable : s.Reachable) {out : Outcome Recorder}
    (loaded : l.load d options fileExists Recorder.renderer s = some out) {r : Handle}
    (root : out.result.root? k = some r) :
    ∃ c parts cand id y, Final s out c ∧ (Selection.choose (l.catalog d) options.targets).get k = .filled cand ∧
      FoundFor c parts k cand id y ∧ Holds c.assembly y r := by
  obtain ⟨harvest, c, c', builds, works, ends, journal⟩ := Loader.builds_of_load loaded
  have built : After ((l.groups d options).foldlM buildGroup {})
      ((l.env d options fileExists Recorder.renderer).at (Place.enter {} .global d.filePrefix)) { system := s }
      fun harvest c => Guarded s (l.catalog d) c ∧
        Explained (Selection.choose (l.catalog d) options.targets).selected harvest c :=
    after_buildGroups_explained rfl reachable Selection.isOf_of_chosen
  obtain ⟨guarded, explained⟩ := built _ _ builds
  have system : Recorder.renderer.follow s out.journal = out.system := by
    obtain ⟨c₂, loads, system, same⟩ := loads_of_load loaded
    rw [system, same]
    exact (loads.keeps rfl (.start (.start s))).system
  obtain ⟨result, t, j⟩ := out
  dsimp only at ends root journal system
  clear loaded
  cases ends with
  | empty =>
      obtain ⟨i, index, -⟩ := Option.bind_eq_some_iff.1 root
      rw [PerKind.get_both] at index
      cases index
  | @handOver e resolves message =>
      obtain ⟨y, hy, holds⟩ := LoadResult.holds_of_root? root
      obtain ⟨cand, id, mem, found⟩ := explained k y hy
      obtain ⟨found, held⟩ := found.stays guarded.proper.keeps message holds
      exact ⟨_, harvest.parts, cand, id, y,
        guarded.final (works.steps.moves.history .start) message journal system,
        Selection.mem_selected.1 mem, found, held⟩

/-- No load complains that a value cannot stand for a surface. The root of the surface, if there is one, is held by the
leaf behind the selected output, if that is a surface. Otherwise the output has a type that can stand for one, and the
root is a new node without a name, whose only input is the node of that leaf, and which is itself an input of no live
node. The root of the displacement is no such node. -/
theorem surface_coercion_of_load {l : Loader} {d : Document} {options : LoadOptions} {fileExists : String → Bool}
    (reachable : s.Reachable) {out : Outcome Recorder}
    (loaded : l.load d options fileExists Recorder.renderer s = some out) :
    (∀ name text, Event.warned (.wrap name (.coercion text)) ∉ out.journal) ∧
    (∀ r, out.result.root? .surface = some r → ∃ cand id x h,
      (Selection.choose (l.catalog d) options.targets).get .surface = .filled cand ∧
      (replay out.journal).HasKey id cand.graph.key ∧ Event.edited (.ended (.root id .surface) true) ∈ out.journal ∧
      (replay out.journal).leafBehind? id cand.output = some x ∧ Holds (replay out.journal) x h ∧
      (cand.output.type = "surfaceshader" ∧ r = h ∨
        cand.output.type ∈ OutputKind.wrappable ∧ r ∈ created out.journal ∧
          out.system.node? r = some (.passing h) ∧ ¬ out.system.Feeds r)) ∧
    ∀ r n, out.result.root? .displacement = some r → out.system.node? r = some n → n.type ≠ .passthrough := by
  refine ⟨fun name text mem => no_misfit_of_load loaded _ mem ⟨name, text, rfl⟩, fun r root => ?_, fun r n root there => ?_⟩
  · obtain ⟨c, parts, cand, id, y, final, filled, found, holds⟩ := found_of_root reachable loaded root
    have marked : Event.edited (.ended (.root id .surface) true) ∈ out.journal := by
      rw [final.journal, List.mem_reverse]
      exact found.marked
    rw [final.assembly]
    cases found.root with
    | leaf behind fits => exact ⟨cand, id, y, r, filled, found.site, marked, behind, holds, .inl ⟨fits rfl, rfl⟩⟩
    | @wrap x _ h behind below _ wrappable wraps =>
        obtain ⟨r', leaf, new, node⟩ := wraps
        have same : r' = r := by
          rw [Holds, leaf] at holds
          exact Option.some.inj holds
        subst same
        refine ⟨cand, id, x, h, filled, found.site, marked, behind, below, .inr ⟨wrappable, ?_, ?_, fun feeds => ?_⟩⟩
        · rw [final.journal, created, List.filterMap_reverse, List.mem_reverse]
          exact new
        · rw [final.system]
          exact node
        · rw [final.system] at feeds
          rcases final.secluded.bound feeds with old | genuine
          · exact Nat.not_lt.2 (final.history.mem_created.1 new).1 old
          · exact genuine.2 _ node rfl
  · obtain ⟨c, parts, cand, id, y, final, filled, found, holds⟩ := found_of_root reachable loaded root
    cases found.root with
    | leaf behind =>
        obtain ⟨k, leaf, held⟩ := Option.bind_eq_some_iff.1 holds
        have plain : k.role ≠ .wrap := fun wrap =>
          final.orderly.forest.wrap leaf wrap (below_of_leafBehind? behind).1
        rw [final.system] at there
        exact (final.secluded.held leaf plain held).2 n there
    | wrap _ _ surface => cases surface

def halfValued : Document where
  nodeGraphs := [
    { name := "g"
      nodes := [
        { name := "k", category := "constant", type := "float"
          inputs := [{ name := "value", type := "float", value := some "0.5" }] }]
      outputs := [{ name := "out", type := "float", nodeName := some "k" }] }]

/-- The second node that is created stands for the surface. -/
theorem surface_coercion_of_load_halfValued :
    ∃ out cand id x h, Loader.load {} halfValued {} (fun _ => false) Recorder.renderer {} = some out ∧
      (Selection.choose (Loader.catalog {} halfValued) none).get .surface = .filled cand ∧
      cand.output.type = "float" ∧ (replay out.journal).leafBehind? id cand.output = some x ∧
      Holds (replay out.journal) x h ∧ out.result.root? .surface = some ⟨1⟩ ∧ ⟨1⟩ ∈ created out.journal ∧
      out.system.node? ⟨1⟩ = some (.passing h) ∧ ¬ out.system.Feeds ⟨1⟩ := by
  have evaluated : (Loader.load {} halfValued {} (fun _ => false) Recorder.renderer {}).map
      (fun o => o.result.root? .surface) = some (some ⟨1⟩) := by
    decide +kernel
  have chosen : ((Selection.choose (Loader.catalog {} halfValued) none).get .surface).candidate?.map
      (fun cand => cand.output.type) = some "float" := by
    decide +kernel
  obtain ⟨out, loaded, root⟩ := Option.map_eq_some_iff.1 evaluated
  obtain ⟨-, surface, -⟩ := surface_coercion_of_load .start loaded
  obtain ⟨cand, id, x, h, filled, -, -, behind, holds, stands⟩ := surface ⟨1⟩ root
  have number : cand.output.type = "float" := by
    rw [show (Selection.choose (Loader.catalog {} halfValued) none).get .surface = .filled cand from filled] at chosen
    exact Option.some.inj chosen
  rcases stands with ⟨shader, -⟩ | ⟨-, new, node, apart⟩
  · rw [number] at shader
    exact absurd shader (by decide)
  · exact ⟨out, cand, id, x, h, loaded, filled, number, behind, holds, root, new, node, apart⟩

end MaterialGraph
