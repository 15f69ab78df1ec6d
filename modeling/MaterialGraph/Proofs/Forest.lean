import MaterialGraph.Proofs.Placement

/-!
# How forests grow

The parts of an orderly context form a forest that is ordered by number, so walks down from a part come to an end.

* `Orderly`, `Grows` : a context whose journal is tidy, and one that has adopted and shared only new parts since.
* `Run.grows`, `Works.grows`, `Loads.orderly` : what a build does leads from orderly contexts to orderly ones.
* `after_loadSelection_own` : the composite that a group gets for its shader reference is never adopted.
-/

namespace MaterialGraph

set_option autoImplicit false

open Build Assembly

variable {σ : Type} {r : Renderer σ} {W : Env σ} {c c' : Context σ} {p : Place}

/-- The assembly of a context is told by its journal, and that journal is tidy. -/
structure Orderly (c : Context σ) : Prop where
  faithful : Faithful c
  tidy : Tidy c.journal

/-- A context is orderly, and what has been adopted or shared since an earlier one has a number from `n` on. -/
structure Grows (n : Nat) (c c' : Context σ) : Prop where
  orderly : Orderly c'
  adopted : ∀ x ∈ adopted c'.journal, x ∈ adopted c.journal ∨ n ≤ x
  sharing : ∀ x ∈ sharing c'.journal, x ∈ sharing c.journal ∨ n ≤ x

theorem mem_adopted_append {j : List Event} (later : List Event) {x : PartId} (h : x ∈ adopted j) :
    x ∈ adopted (later ++ j) :=
  ((List.sublist_append_right later j).filterMap _).subset h

theorem adopted_of_suffix {j j' : List Event} {x : PartId} (earlier : j <:+ j') (mem : x ∈ adopted j) :
    x ∈ adopted j' := by
  obtain ⟨later, rfl⟩ := earlier
  exact mem_adopted_append later mem

theorem Orderly.start (s : σ) : Orderly ({ system := s } : Context σ) := ⟨.start s, trivial⟩

theorem Orderly.forest (orderly : Orderly c) : c.assembly.Forest :=
  orderly.faithful.assembly ▸ orderly.tidy.forest orderly.faithful.fits

theorem Orderly.lt_of_adopted (orderly : Orderly c) {x : PartId} (h : x ∈ adopted c.journal) : x < c.assembly.size :=
  orderly.faithful.assembly ▸ orderly.tidy.bounds.1 x h

theorem Orderly.lt_of_sharing (orderly : Orderly c) {x : PartId} (h : x ∈ sharing c.journal) : x < c.assembly.size :=
  orderly.faithful.assembly ▸ orderly.tidy.bounds.2.1 x h

theorem Orderly.sharing_of_mem_shared (orderly : Orderly c) {x : PartId} (h : x ∈ c.assembly.shared) :
    x ∈ sharing c.journal :=
  mem_sharing_of_mem_shared (orderly.faithful.assembly.symm ▸ h)

namespace Grows

variable {n m : Nat} {c₁ : Context σ}

theorem refl (n : Nat) (orderly : Orderly c) : Grows n c c := ⟨orderly, fun _ => .inl, fun _ => .inl⟩

theorem trans (h₁ : Grows n c c₁) (h₂ : Grows m c₁ c') (hnm : n ≤ m) : Grows n c c' where
  orderly := h₂.orderly
  adopted x hx := (h₂.adopted x hx).elim (h₁.adopted x) fun h => .inr (Nat.le_trans hnm h)
  sharing x hx := (h₂.sharing x hx).elim (h₁.sharing x) fun h => .inr (Nat.le_trans hnm h)

/-- What is there and has not been adopted stays so. -/
theorem not_adopted (h : Grows n c c') {x : PartId} (hx : x < n) (new : x ∉ MaterialGraph.adopted c.journal) :
    x ∉ MaterialGraph.adopted c'.journal :=
  fun hm => (h.adopted x hm).elim new fun hn => Nat.not_lt.2 hn hx

/-- A part that was there before becomes a child of nothing else. -/
theorem child?_of_lt (h : Grows n c c') (orderly : Orderly c) (suffix : c.journal <:+ c'.journal) {id x : PartId}
    {name : String} (lt : x < n) (child : c'.assembly.child? id name = some x) :
    c.assembly.child? id name = some x := by
  have back (new : List Event) (fits : Fits (new ++ c.journal)) (tidy : Tidy (new ++ c.journal))
      (grown : ∀ x ∈ MaterialGraph.adopted (new ++ c.journal), x ∈ MaterialGraph.adopted c.journal ∨ n ≤ x)
      (child : (replay (new ++ c.journal).reverse).child? id name = some x) :
      (replay c.journal.reverse).child? id name = some x := by
    induction new with
    | nil => exact child
    | cons e new ih =>
        rw [List.cons_append, replay_reverse_cons] at child
        rcases child?_of_replayOn fits.1 child with rfl | child
        · -- it has been adopted now, so it had not been before
          have fresh : x ∉ MaterialGraph.adopted (new ++ c.journal) := (tidy.1 _ rfl).2.1.1
          rcases grown x List.mem_cons_self with old | later
          · exact absurd (mem_adopted_append new old) fresh
          · exact absurd lt (Nat.not_lt.2 later)
        · refine ih fits.2 tidy.2 (fun y hy => grown y ?_) child
          exact ((List.sublist_cons_self e _).filterMap _).subset hy
  obtain ⟨new, journal⟩ := suffix
  have faithful := h.orderly.faithful
  have tidy := h.orderly.tidy
  have grown := h.adopted
  rw [← faithful.assembly] at child
  rw [← orderly.faithful.assembly]
  rw [← journal] at child tidy grown
  exact back new (journal ▸ faithful.fits) tidy grown child

/-- What notes no child, no socket and nothing shared adopts nothing. -/
theorem plain (orderly : Orderly c) (moves : Moves r c c') (plain : Only Event.IsPlain c c') (n : Nat) :
    Grows n c c' where
  orderly := by
    refine ⟨moves.faithful orderly.faithful, ?_⟩
    obtain ⟨new, journal, hnew⟩ := plain
    rw [journal]
    exact orderly.tidy.plain hnew
  adopted x hx := by
    rw [MaterialGraph.adopted, plain.filterMap_eq fun _ he => he.adopted?] at hx
    exact .inl hx
  sharing x hx := by
    rw [MaterialGraph.sharing, plain.filterMap_eq fun _ he => he.shared?] at hx
    exact .inl hx

theorem leafwork (orderly : Orderly c) (moves : Moves r c c') (leafwork : Leafwork c c') (n : Nat) : Grows n c c' :=
  plain orderly moves (leafwork.mono fun _ he => he.isPlain) n

theorem message {e : Event} (r : Renderer σ) (orderly : Orderly c) (message : IsMessage e) (n : Nat) :
    Grows n c (c.push e) :=
  leafwork (r := r) orderly (.single (.message message)) (Leafwork.message message) n

/-- An edit that puts a part where it may stand. -/
theorem edit {e : Edit} (orderly : Orderly c) (admits : Admits c.assembly e) (placed : Placed c.journal e)
    (adopts : ∀ x, (Event.edited e).adopted? = some x → n ≤ x)
    (shares : ∀ x, (Event.edited e).shared? = some x → x ∈ MaterialGraph.sharing c.journal ∨ n ≤ x) :
    Grows n c (c.edit e) where
  orderly := by
    refine ⟨orderly.faithful.event rfl rfl fun x hx => ?_, fun x hx => ?_, orderly.tidy⟩
    all_goals
      cases hx
      assumption
  adopted x hx := by
    rw [Context.edit_journal, MaterialGraph.adopted, List.filterMap_cons] at hx
    split at hx
    · exact .inl hx
    · next y hy =>
      rcases List.mem_cons.1 hx with rfl | hx
      · exact .inr (adopts x hy)
      · exact .inl hx
  sharing x hx := by
    rw [Context.edit_journal, MaterialGraph.sharing, List.filterMap_cons] at hx
    split at hx
    · exact .inl hx
    · next y hy =>
      rcases List.mem_cons.1 hx with rfl | hx
      · exact shares x hy
      · exact .inl hx

theorem mark {e : Edit} (orderly : Orderly c) (mark : IsMark e) (n : Nat) : Grows n c (c.edit e) := by
  cases mark <;> exact edit orderly trivial trivial nofun nofun

theorem addLeaf (orderly : Orderly c) (l : Leaf) (n : Nat) : Grows n c (c.edit (.add (.leaf l))) :=
  edit orderly trivial trivial nofun nofun

theorem addComposite (orderly : Orderly c) (g : Graph) (n : Nat) :
    Grows n c (c.edit (.add (.composite { graph := g }))) :=
  edit orderly ⟨g, rfl⟩ trivial nofun nofun

theorem edge (orderly : Orderly c) (id : PartId) (e : Edge) (n : Nat) : Grows n c (c.edit (.edge id e)) :=
  edit orderly trivial trivial nofun nofun

theorem child (orderly : Orderly c) {id x : PartId} {name : String} (between : id < x ∧ x < c.assembly.size)
    (new : x ∉ MaterialGraph.adopted c.journal ∧ x ∉ MaterialGraph.sharing c.journal)
    (plain : ∀ l, c.assembly.leaf? x = some l → l.role ≠ .wrap) (names : c.assembly.Names id name) (hn : n ≤ x) :
    Grows n c (c.edit (.child id name x)) := by
  refine edit orderly trivial ?_ ?_ nofun
  · rw [Placed, orderly.faithful.assembly]
    exact ⟨between, new, plain, names⟩
  · rintro y ⟨⟩
    exact hn

/-- A new part is shared. -/
theorem share (orderly : Orderly c) {e : Edit} {x : PartId} (admits : Admits c.assembly e)
    (shared : (Event.edited e).shared? = some x) (there : x < c.assembly.size)
    (new : x ∉ MaterialGraph.adopted c.journal) (hn : x ∈ MaterialGraph.sharing c.journal ∨ n ≤ x) :
    Grows n c (c.edit e) := by
  cases e with
  | top | geometry | freeStanding =>
      cases shared
      refine edit orderly admits ?_ nofun ?_
      · rw [Placed, orderly.faithful.assembly]
        exact ⟨there, new⟩
      · rintro y ⟨⟩
        exact hn
  | _ => cases shared

end Grows

/-! ## Runs -/

namespace Build

theorem plain_of_barren (h : Barren r c c') : Only Event.IsPlain c c' := by
  induction h with
  | refl => exact .refl _
  | trans _ _ ih₁ ih₂ => exact ih₁.trans ih₂
  | message c message => exact (Leafwork.message message).mono fun _ he => he.isPlain
  | task _ ih => exact (Only.event rfl trivial).trans (ih.trans (.event rfl trivial))
  | failed _ creation => exact creation.leafwork.mono fun _ he => he.isPlain
  | composite => exact .event rfl trivial

theorem Barren.grows (h : Barren r c c') (orderly : Orderly c) (n : Nat) : Grows n c c' :=
  .plain orderly h.steps.moves (plain_of_barren h) n

theorem CreatesLeaf.grows {type : NodeType} {role : Role} {settings : List (InputKey × Bound)}
    {name : Option String} {res : Result Leaf}
    (h : CreatesLeaf r type role settings name c res c') (orderly : Orderly c) (n : Nat) : Grows n c c' :=
  .leafwork orderly h.moves h.leafwork n

theorem Binds.grows {x : PartId} {b : Binding} (h : Binds r x b c c') (orderly : Orderly c) (n : Nat) :
    Grows n c c' :=
  .leafwork orderly h.moves h.leafwork n

theorem Connects.grows {x y : PartId} {success : Bool} (h : Connects r x y success c c') (orderly : Orderly c)
    (n : Nat) : Grows n c c' :=
  .leafwork orderly h.steps.moves h.leafwork n

theorem MakesLeaf.grows {m : Node} {l : Leaf} (h : MakesLeaf r m c l c') (orderly : Orderly c) (n : Nat) :
    Grows n c c' := by
  cases h with
  | forward => exact .refl n orderly
  | create _ creation => exact creation.grows orderly n

/-- No node is a leaf that lets a value stand for a surface. -/
theorem ne_wrap_of_recipe {n : Node} {how : Recipe} (h : Recipe.of n = .ok how) :
    how ≠ .forward .wrap ∧ ∀ type settings, how ≠ .create type .wrap settings := by
  unfold Recipe.of at h
  split at h
  case h_7 =>
    unfold Recipe.ofSwizzle at h
    split at h <;> cases h <;> simp [Recipe.ofMapping]
  case h_8 => split at h <;> cases h <;> simp [Recipe.ofMapping]
  all_goals
    cases h
    simp [Recipe.ofLookup]

theorem MakesLeaf.ne_wrap {n : Node} {l : Leaf} (h : MakesLeaf r n c l c') : l.role ≠ .wrap := by
  cases h with
  | forward recipe =>
      rintro rfl
      exact (ne_wrap_of_recipe recipe).1 rfl
  | create recipe creation =>
      cases creation
      rintro rfl
      exact (ne_wrap_of_recipe recipe).2 _ _ rfl

/-- A free-standing graph that is being built is shared. -/
theorem Starts.grows {g : NodeGraph} {x : PartId} (h : Starts g c x c') (orderly : Orderly c) :
    Grows c.assembly.size c c' ∧ x ∈ sharing c'.journal := by
  cases h with
  | first =>
      have added := Grows.addComposite orderly (.named g) c.assembly.size
      refine ⟨added.trans (.share added.orderly trivial rfl ?_ ?_ (.inr (Nat.le_refl _))) (Nat.le_refl _),
        List.mem_cons_self⟩
      · rw [Construction.id, Context.edit_assembly, size_add]
        exact Nat.lt_succ_self _
      · exact fun h => Nat.lt_irrefl _ (orderly.lt_of_adopted h)
  | again built =>
      have shared : x ∈ sharing c.journal :=
        orderly.sharing_of_mem_shared (mem_shared.2 (.inr (.inr ⟨_, _, built, rfl⟩)))
      refine ⟨.share orderly trivial rfl (orderly.lt_of_sharing shared) (orderly.tidy.bounds.2.2 x shared)
        (.inl shared), List.mem_cons_self⟩

/-- The leaf for a node is noted as its child. -/
theorem MakesLeaf.grows_child {c₁ : Context σ} {l : Leaf} {n : Node} {k : Composite} {id : PartId}
    (makes : MakesLeaf W.renderer n c l c₁) (orderly : Orderly c) (composite : c.assembly.composite? id = some k)
    (node : k.graph.Has n) :
    Grows c.assembly.size c ((c₁.edit (.add (.leaf l))).edit (.child id n.name c₁.assembly.size)) := by
  have made := makes.grows orderly c.assembly.size
  have added := made.trans (.addLeaf made.orderly l c.assembly.size) (Nat.le_refl _)
  have size : c₁.assembly.size = c.assembly.size := by rw [makes.assembly]
  refine added.trans (.child added.orderly ⟨?_, ?_⟩ ⟨fun h => ?_, fun h => ?_⟩ ?_ ?_ (Nat.le_of_eq size.symm))
    (Nat.le_refl _)
  · rw [size]
    exact lt_size_of_composite? composite
  · exact Nat.lt_of_lt_of_eq (Nat.lt_succ_self _) (size_add _).symm
  · exact Nat.lt_irrefl _ (made.orderly.lt_of_adopted h)
  · exact Nat.lt_irrefl _ (made.orderly.lt_of_sharing h)
  · intro l' leaf
    rw [Context.edit_assembly, leaf?_add_leaf, if_pos rfl] at leaf
    cases leaf
    exact makes.ne_wrap
  · refine ⟨k, ?_, n, node.mem, rfl⟩
    rw [Context.edit_assembly, composite?_add_leaf, makes.assembly, composite]

/-- The composite for a node, in which parts have been built, is noted as its child. -/
theorem grows_compositeChild {c₁ : Context σ} {n : Node} {k : Composite} {g : NodeGraph} {id : PartId}
    (built : Grows (c.edit (.add (.composite { graph := .named g }))).assembly.size
      (c.edit (.add (.composite { graph := .named g }))) c₁)
    (orderly : Orderly c) (more : Extends (c.edit (.add (.composite { graph := .named g }))).assembly c₁.assembly)
    (composite : c.assembly.composite? id = some k) (node : k.graph.Has n) :
    Grows c.assembly.size c (c₁.edit (.child id n.name c.assembly.size)) := by
  have added := Grows.addComposite orderly (.named g) c.assembly.size
  have size : (c.edit (.add (.composite { graph := .named g }))).assembly.size = c.assembly.size + 1 := size_add _
  have there : c.assembly.size < c₁.assembly.size := by
    have later := more.size
    rwa [size] at later
  have before : Grows c.assembly.size c c₁ := added.trans built (by rw [size]; exact Nat.le_succ _)
  refine before.trans (.child built.orderly ⟨lt_size_of_composite? composite, there⟩
    ⟨?_, ?_⟩ ?_ ?_ (Nat.le_refl _)) (Nat.le_refl _)
  · refine built.not_adopted ?_ fun h => Nat.lt_irrefl _ (orderly.lt_of_adopted h)
    rw [size]
    exact Nat.lt_succ_self _
  · intro h
    rcases built.sharing _ h with h | h
    · exact Nat.lt_irrefl _ (orderly.lt_of_sharing h)
    · omega
  · intro l leaf
    have start : (c.edit (.add (.composite { graph := .named g }))).assembly.composite? c.assembly.size =
        some { graph := .named g } := by
      rw [Context.edit_assembly, composite?_add_composite, if_pos rfl]
    obtain ⟨k', composite', -⟩ := more.composite start
    rw [leaf?_eq_none_of_composite? composite'] at leaf
    cases leaf
  · obtain ⟨k', composite', same⟩ := ((Extends.add c.assembly _).trans more).composite composite
    exact ⟨k', composite', n, same ▸ node.mem, rfl⟩

/-- A run leads from orderly contexts to orderly ones. The child that it notes has been added in it: nothing that the
run opens could have adopted or shared it. -/
theorem Run.grows {ph : Phase} {id : PartId} {s : Nat} (h : Run W ph id s c c') (orderly : Orderly c) :
    Grows c.assembly.size c c' := by
  induction h with
  | refl => exact .refl _ orderly
  | trans first _ ih₁ ih₂ =>
      have grows₁ := ih₁ orderly
      exact grows₁.trans (ih₂ grows₁.orderly) first.steps.extends.size
  | message c message => exact .message W.renderer orderly message _
  | barren barren => exact barren.grows orderly _
  | @task id s c c₁ name success inner asks ih =>
      have begun : Grows c.assembly.size c (c.edit (.began (.child id name))) := .mark orderly (.began _) _
      have grows := begun.trans (ih begun.orderly) (Nat.le_refl _)
      exact grows.trans (.mark grows.orderly (.ended _ _) _) (Nat.le_refl _)
  | leafChild composite node _ makes => exact makes.grows_child orderly composite node
  | @compositeChild id s c c₁ n k g composite node absent recipe implementation inner ih =>
      have added := Grows.addComposite orderly (.named g) c.assembly.size
      exact grows_compositeChild (ih added.orderly) orderly inner.steps.extends composite node
  | socket _ _ there =>
      refine .edit orderly trivial ?_ nofun nofun
      rw [Placed, orderly.faithful.assembly]
      exact there
  | literal _ binds => exact binds.grows orderly _
  | @inside id x y s c c₁ k e _ _ _ _ connects =>
      have connected := connects.grows orderly c.assembly.size
      exact connected.trans (.edge connected.orderly _ _ _) (Nat.le_refl _)
  | insideFailed _ _ _ _ connects => exact connects.grows orderly _
  | @geometry ph id s c c₁ g l quantity absent creation =>
      have made := creation.grows orderly c.assembly.size
      have added := made.trans (.addLeaf made.orderly l c.assembly.size) (Nat.le_refl _)
      rw [← creation.assembly] at absent
      refine added.trans (.share added.orderly absent rfl ?_ (fun h => ?_) (.inr ?_)) (Nat.le_refl _)
      · rw [Context.edit_assembly, size_add]
        exact Nat.lt_succ_self _
      · exact Nat.lt_irrefl _ (made.orderly.lt_of_adopted h)
      · exact Nat.le_of_eq (congrArg Assembly.size creation.assembly).symm
  | @top ph id s c absent =>
      have added := Grows.addComposite orderly (.document W.catalog.document) c.assembly.size
      refine added.trans (.share added.orderly absent rfl ?_ (fun h => ?_) (.inr (Nat.le_refl _))) (Nat.le_refl _)
      · rw [Context.edit_assembly, size_add]
        exact Nat.lt_succ_self _
      · exact Nat.lt_irrefl _ (orderly.lt_of_adopted h)
  | @viaTop ph id t s c c₁ name success top inner asks ih =>
      have begun : Grows c.assembly.size c (c.edit (.began (.child t name))) := .mark orderly (.began _) _
      have grows := begun.trans (ih begun.orderly) (Nat.le_refl _)
      exact grows.trans (.mark grows.orderly (.ended _ _) _) (Nat.le_refl _)
  | @viaGraph ph id x s c c₁ c₂ g starts inner ih =>
      obtain ⟨started, shared⟩ := starts.grows orderly
      have built := ih started.orderly
      have still : x ∈ sharing c₂.journal := (inner.suffix.filterMap _).subset shared
      refine (started.trans built starts.size_le).trans (.share built.orderly trivial rfl
        (built.orderly.lt_of_sharing still) (built.orderly.tidy.bounds.2.2 x still) (.inl still)) (Nat.le_refl _)
  | outside _ _ connects => exact connects.grows orderly _

/-! ## Loads -/

theorem Works.grows {harvest harvest' : Harvest} (h : Works W harvest c harvest' c') (orderly : Orderly c) :
    Grows c.assembly.size c c' := by
  induction h with
  | refl | more | root => exact .refl _ orderly
  | trans first _ ih₁ ih₂ =>
      have grows₁ := ih₁ orderly
      exact grows₁.trans (ih₂ grows₁.orderly) first.steps.extends.size
  | mark _ _ mark => exact .mark orderly mark _
  | inside _ _ run => exact run.grows orderly
  | elsewhere _ run => exact (run .asking 0 0).grows orderly
  | @own harvest c c₁ g inner =>
      have added := Grows.addComposite orderly g c.assembly.size
      refine added.trans (inner.grows added.orderly) ?_
      rw [Context.edit_assembly, size_add]
      exact Nat.le_succ _
  | @wrap harvest c c₁ x h l _ creation =>
      have made := creation.grows orderly c.assembly.size
      exact made.trans (.addLeaf made.orderly l c.assembly.size) (Nat.le_refl _)
  | wrapFailed _ _ creation => exact creation.grows orderly _

theorem grows_releasedAll (orderly : Orderly c) (xs : List PartId) (n : Nat) : Grows n c (releasedAll r xs c) :=
  .leafwork orderly (moves_releasedAll xs c) (leafwork_releasedAll xs c) n

theorem Loads.orderly {result : LoadResult} (h : Loads W c result c') (orderly : Orderly c) : Orderly c' := by
  cases h with
  | nothing => exact (Grows.message W.renderer orderly (.warning _) 0).orderly
  | @unresolved harvest c₁ w works =>
      have warned := Grows.message W.renderer (works.grows orderly).orderly (.warning w) 0
      exact (grows_releasedAll warned.orderly _ 0).orderly
  | @handOver harvest c₁ e works _ message =>
      have released := grows_releasedAll (r := W.renderer) (works.grows orderly).orderly
        (LoadResult.left c₁.assembly harvest.parts) 0
      exact (Grows.message W.renderer released.orderly message 0).orderly

/-- A composite of its own is the next part, and everything else is built after it. -/
theorem after_buildComposite_run {g : Graph} {required : List Output} :
    After (buildComposite part g required) (W.at p) c fun res c' =>
      Run W .asking c.assembly.size c.assembly.size (c.edit (.add (.composite { graph := g }))) c' ∧
        ∀ id, res = .ok id → id = c.assembly.size := by
  rw [buildComposite, after_bind, after_addComposite, after_andThen]
  refine (after_buildOutputs (s := c.assembly.size) sound_part).mono ?_
  rintro res c₁ ⟨run, -⟩
  refine ⟨fun _ _ => after_pure.2 ⟨run, ?_⟩, fun _ _ => ⟨run, by rintro _ ⟨⟩⟩⟩
  rintro _ ⟨⟩
  rfl

/-- The composite that a group gets for its shader reference is never adopted while the group is built. -/
theorem after_buildGroup_own {harvest : Harvest} {g : Group} (own : g.shaderRef.isSome) (orderly : Orderly c) :
    After (buildGroup harvest g) (W.at p) c fun _ c' =>
      Grows (c.assembly.size + 1) (c.edit (.add (.composite { graph := g.graph }))) c' ∧
        c.assembly.size < c'.assembly.size := by
  obtain ⟨ref, href⟩ := Option.isSome_iff_exists.1 own
  have start := (Grows.addComposite orderly g.graph 0).orderly
  have size : (c.edit (.add (.composite { graph := g.graph }))).assembly.size = c.assembly.size + 1 := size_add _
  rw [buildGroup, groupComposite, href]
  dsimp only
  rw [after_bind]
  refine after_buildComposite_run.mono ?_
  rintro res c₁ ⟨run, own⟩
  have built := size ▸ run.grows start
  cases res with
  | error e =>
      dsimp only
      rw [after_bind]
      refine (after_reportGroup harvest (.refl harvest c₁)).mono fun _ c₂ works => after_pure.2 ?_
      have more := size ▸ run.steps.extends.size
      exact ⟨built.trans (works.grows built.orderly) more, Nat.lt_of_lt_of_le more works.steps.extends.size⟩
  | ok id =>
      cases own id rfl
      dsimp only
      rw [after_bind]
      have set := after_forM (E := W.at p) (l := ref.bindInputs) (f := setBindInput c.assembly.size ref) (c := c₁)
        (I := fun c₂ => Works W (harvest.add c.assembly.size) c₁ (harvest.add c.assembly.size) c₂)
        (fun i _ c₂ works => after_setBindInput.mono fun _ _ sets => works.trans (sets.works (reached_add _ harvest _)))
        (.refl _ _)
      refine set.mono fun _ c₂ works => ?_
      refine (after_addRoots _ _ works (reached_add _ harvest _)).mono fun _ c₃ works => ?_
      have more := size ▸ run.steps.extends.size
      exact ⟨built.trans (works.grows built.orderly) more, Nat.lt_of_lt_of_le more works.steps.extends.size⟩

/-- So it is never adopted in the whole load. -/
theorem after_loadSelection_own {selection : Selection} {earlier rest : List Group} {g : Group} {harvest : Harvest}
    {c₁ : Context σ} (groups : Group.ofSelected selection.selected = earlier ++ g :: rest)
    (own : g.shaderRef.isSome) (reached : earlier.foldlM buildGroup {} (W.at p) c = .ok (harvest, c₁))
    (orderly : Orderly c) :
    After (loadSelection selection) (W.at p) c fun _ c' => c₁.assembly.size ∉ adopted c'.journal := by
  rw [loadSelection, groups, List.foldlM_append, after_bind, after_bind]
  intro harvest' c₁' reached'
  rw [reached] at reached'
  cases reached'
  have orderly₁ : Orderly c₁ := ((after_buildGroups earlier {} _ _ reached).grows orderly).orderly
  rw [List.foldlM_cons, after_bind]
  refine (after_buildGroup_own own orderly₁).mono ?_
  rintro harvest₂ c₂ ⟨grows₂, there⟩
  refine (after_buildGroups rest harvest₂).mono fun harvest₃ c₃ works => ?_
  have grows₃ := works.grows grows₂.orderly
  have never : c₁.assembly.size ∉ adopted c₃.journal := by
    refine grows₃.not_adopted there (grows₂.not_adopted (Nat.lt_succ_self _) fun h => ?_)
    exact Nat.lt_irrefl _ (orderly₁.lt_of_adopted h)
  have released (xs : List PartId) {c₄ : Context σ} (orderly : Orderly c₄)
      (never : c₁.assembly.size ∉ adopted c₄.journal) :
      c₁.assembly.size ∉ adopted (releasedAll W.renderer xs c₄).journal :=
    (grows_releasedAll orderly xs _).not_adopted (Nat.lt_succ_self _) never
  split
  · rw [after_bind, after_catalog, after_bind, after_warn, after_bind, after_assembly, after_bind,
      after_releaseParts, after_pure]
    exact released _ (Grows.message W.renderer grows₃.orderly (.warning _) 0).orderly never
  · rw [handOver, after_bind, after_assembly]
    dsimp only
    rw [after_bind, after_releaseParts, after_bind, after_emit, after_pure]
    exact released _ grows₃.orderly never

end Build

def Loader.groups (l : Loader) (d : Document) (options : LoadOptions) : List Group :=
  Group.ofSelected (Selection.choose (l.catalog d) options.targets).selected

/-- What a load has built after some of its groups. -/
def Loader.builds (l : Loader) (d : Document) (options : LoadOptions) (fileExists : String → Bool) (r : Renderer σ)
    (s : σ) (groups : List Group) : Except (Context σ) (Harvest × Context σ) :=
  groups.foldlM buildGroup {} ((l.env d options fileExists r).at (Place.enter {} .global d.filePrefix)) { system := s }

end MaterialGraph
