import MaterialGraph.Proofs.Build.Groups
import MaterialGraph.Proofs.Course.Children
import MaterialGraph.Proofs.Course.Selected
import MaterialGraph.Proofs.Overrides

/-!
# Courses of loads

What a load does until it hands over what it has built is one course (`course_of_load`). Then it only takes nodes from
leaves and deletes them.

* `Course.shared_origin` : in a course, only new parts become shared.
* `Advances` : from one context to another, only new parts are noted. In a course it is so (`Course.advances`).
* `course_buildGroup` : a group is built in a course about what is selected.
* `Closes` : how a load closes, once nothing more is built.
-/

namespace MaterialGraph.Build

set_option autoImplicit false

open Assembly

variable {σ : Type} {W : Env σ} {c c' : Context σ} {p : Place} {id x : PartId} {gr : Group}
  {selected : List (OutputKind × Candidate)}

/-! ## Parts that are not shared -/

theorem shared_congr {a a' : Assembly} (top : a'.top = a.top) (geometry : a'.geometry = a.geometry)
    (freeStanding : a'.freeStanding = a.freeStanding) : a'.shared = a.shared := by
  rw [shared, shared, top, geometry, freeStanding]

theorem mem_shared_top {a : Assembly} {t : PartId} (h : x ∈ (a.apply (.top t)).shared) : x ∈ a.shared ∨ x = t := by
  rcases mem_shared.1 h with top | geometry | freeStanding
  · exact .inr (Option.some.inj top).symm
  · exact .inl (mem_shared.2 (.inr (.inl geometry)))
  · exact .inl (mem_shared.2 (.inr (.inr freeStanding)))

theorem mem_shared_geometry {a : Assembly} {name : String} {y : PartId} (h : x ∈ (a.apply (.geometry name y)).shared) :
    x ∈ a.shared ∨ x = y := by
  rcases mem_shared.1 h with top | ⟨other, known⟩ | freeStanding
  · exact .inl (mem_shared.2 (.inl top))
  · change (a.geometry.insert name y)[other]? = some x at known
    rw [Std.TreeMap.getElem?_insert] at known
    split at known
    · exact .inr (Option.some.inj known).symm
    · exact .inl (mem_shared.2 (.inr (.inl ⟨other, known⟩)))
  · exact .inl (mem_shared.2 (.inr (.inr freeStanding)))

theorem mem_shared_freeStanding {a : Assembly} {name : String} {state : Construction}
    (h : x ∈ (a.apply (.freeStanding name state)).shared) : x ∈ a.shared ∨ x = state.id := by
  rcases mem_shared.1 h with top | geometry | ⟨other, state', known, rfl⟩
  · exact .inl (mem_shared.2 (.inl top))
  · exact .inl (mem_shared.2 (.inr (.inl geometry)))
  · change (a.freeStanding.insert name state)[other]? = some state' at known
    rw [Std.TreeMap.getElem?_insert] at known
    split at known
    · cases known
      exact .inr rfl
    · exact .inl (mem_shared.2 (.inr (.inr ⟨other, state', known, rfl⟩)))

/-- A part is shared already, or it has been added since. -/
def IsFresh (c c' : Context σ) (x : PartId) : Prop :=
  x ∈ c.assembly.shared ∨ c.assembly.size ≤ x ∧ x < c'.assembly.size

theorem Starts.isFresh {h : NodeGraph} {y : PartId} (starts : Starts h c y c') :
    (∀ x ∈ c'.assembly.shared, IsFresh c c' x) ∧ IsFresh c c' y := by
  cases starts with
  | first absent =>
      have fresh : IsFresh c ((c.edit (.add (.composite { graph := .named h }))).edit
          (.freeStanding h.name (.building c.assembly.size))) c.assembly.size := by
        refine .inr ⟨Nat.le_refl _, ?_⟩
        rw [Context.edit_assembly, size_freeStanding, Context.edit_assembly, size_add]
        exact Nat.lt_succ_self _
      refine ⟨fun x hx => ?_, fresh⟩
      rcases mem_shared_freeStanding hx with old | rfl
      · exact .inl old
      · exact fresh
  | again built =>
      have known : y ∈ c.assembly.shared := mem_shared.2 (.inr (.inr ⟨h.name, _, built, rfl⟩))
      refine ⟨fun x hx => ?_, .inl known⟩
      rcases mem_shared_freeStanding hx with old | rfl
      · exact .inl old
      · exact .inl known

theorem IsFresh.grow {c₁ : Context σ} (h : IsFresh c c₁ x) (le : c₁.assembly.size ≤ c'.assembly.size) :
    IsFresh c c' x :=
  h.imp_right fun ⟨new, lt⟩ => ⟨new, Nat.lt_of_lt_of_le lt le⟩

theorem IsFresh.trans {c₁ : Context σ} (first : ∀ x ∈ c₁.assembly.shared, IsFresh c c₁ x)
    (le : c.assembly.size ≤ c₁.assembly.size) (le' : c₁.assembly.size ≤ c'.assembly.size) (h : IsFresh c₁ c' x) :
    IsFresh c c' x := by
  rcases h with old | ⟨new, lt⟩
  · exact (first x old).grow le'
  · exact .inr ⟨Nat.le_trans le new, lt⟩

/-- In a course, only new parts become shared. -/
theorem Course.shared_origin {s : Scene} (h : Course W s p c c') : ∀ x ∈ c'.assembly.shared, IsFresh c c' x := by
  have same {c c' : Context σ} (shared : c'.assembly.shared = c.assembly.shared) :
      ∀ x ∈ c'.assembly.shared, IsFresh c c' x := fun x hx => .inl (shared ▸ hx)
  have rebinds {c c' : Context σ} {S : PartId → Prop} (h : Rebinds S c.assembly c'.assembly) :=
    same (shared_congr h.top h.geometry h.freeStanding)
  have added {c c₁ : Context σ} {q : Part} (ih : ∀ x ∈ c₁.assembly.shared, IsFresh (c.edit (.add q)) c₁ x) :
      ∀ x ∈ c₁.assembly.shared, IsFresh c c₁ x := by
    intro x hx
    rcases ih x hx with old | ⟨le, lt⟩
    · exact .inl old
    · rw [Context.edit_assembly, size_add] at le
      exact .inr ⟨Nat.le_of_succ_le le, lt⟩
  induction h with
  | refl | message | socket | cycle | busy => exact same rfl
  | mark _ mark => cases mark <;> exact same rfl
  | task _ ih => exact ih
  | trans first second ih₁ ih₂ => exact fun x hx => .trans ih₁ first.extends.size second.extends.size (ih₂ x hx)
  | refused _ creation => exact same (by rw [creation.assembly])
  | wrap _ creation =>
      refine same ?_
      rw [← creation.assembly]
      rfl
  | leafChild _ _ _ _ makes =>
      refine same ?_
      rw [← makes.assembly]
      rfl
  | own _ _ _ ih | expansion _ _ _ _ ih => exact added ih
  | compositeChild _ _ _ ih => exact fun x hx => (added ih x hx).grow (Nat.le_of_eq (size_child _ _).symm)
  | shared _ _ _ ih | settle _ _ ih | overriding _ _ _ _ _ ih | search _ _ _ _ _ ih | output _ _ ih | give _ _ ih
    | input _ _ _ _ _ _ ih | follow _ _ ih | viaTop _ _ _ ih => exact ih
  | link _ _ _ _ _ _ connected =>
      exact fun x hx => (rebinds (after_connect _ _ connected).rebinds x hx).grow (Nat.le_of_eq (size_edge _).symm)
  | unlinked _ _ _ _ _ connected | connection _ _ connected => exact rebinds (after_connect _ _ connected).rebinds
  | literal _ _ bound => exact rebinds (after_bindInput _ _ bound).rebinds
  | @geometry s p c c₁ g l quantity absent creation =>
      intro x hx
      rcases mem_shared_geometry hx with old | rfl
      · change x ∈ c₁.assembly.shared at old
        rw [creation.assembly] at old
        exact .inl old
      · refine .inr ⟨Nat.le_of_eq (by rw [creation.assembly]), ?_⟩
        rw [Context.edit_assembly, size_geometry, Context.edit_assembly, size_add]
        exact Nat.lt_succ_self _
  | @top s p c absent =>
      intro x hx
      rcases mem_shared_top hx with old | rfl
      · exact .inl old
      · refine .inr ⟨Nat.le_refl _, ?_⟩
        rw [Context.edit_assembly, size_top, Context.edit_assembly, size_add]
        exact Nat.lt_succ_self _
  | @viaGraph s p c c₁ c₂ h g y required sub res wants starts graph way call inner ih =>
      intro x hx
      rcases mem_shared_freeStanding hx with old | rfl
      · exact .trans starts.isFresh.1 (starts.steps (r := W.renderer)).extends.size inner.extends.size (ih x old)
      · exact starts.isFresh.2.grow inner.extends.size

/-! ## Parts that are not noted -/

def IsNew (c c' : Context σ) (x : PartId) : Prop := c.assembly.size ≤ x ∧ x < c'.assembly.size

theorem isNew_added {c₁ : Context σ} (le : c.assembly.size ≤ c₁.assembly.size) (q : Part) :
    IsNew c (c₁.edit (.add q)) c₁.assembly.size := by
  refine ⟨le, ?_⟩
  rw [Context.edit_assembly, size_add]
  exact Nat.lt_succ_self _

/-- From one context to another, only new parts are noted, as children or as shared. -/
structure Advances (c c' : Context σ) : Prop where
  size : c.assembly.size ≤ c'.assembly.size
  adopted : ∀ x ∈ adopted c'.journal, x ∈ adopted c.journal ∨ IsNew c c' x
  sharing : ∀ x ∈ sharing c'.journal, x ∈ sharing c.journal ∨ IsNew c c' x

/-- A part that has been added stays apart until it is noted. -/
theorem IsApart.advances (apart : IsApart c id) (advances : Advances c c') (there : id < c.assembly.size) : IsApart c' id :=
  ⟨fun h => (advances.adopted id h).elim apart.1 fun new => Nat.not_lt_of_le new.1 there,
    fun h => (advances.sharing id h).elim apart.2 fun new => Nat.not_lt_of_le new.1 there⟩

namespace Advances

variable {c₁ : Context σ}

theorem trans (h₁ : Advances c c₁) (h₂ : Advances c₁ c') : Advances c c' where
  size := Nat.le_trans h₁.size h₂.size
  adopted x hx := by
    rcases h₂.adopted x hx with old | new
    · exact (h₁.adopted x old).imp_right fun new => ⟨new.1, Nat.lt_of_lt_of_le new.2 h₂.size⟩
    · exact .inr ⟨Nat.le_trans h₁.size new.1, new.2⟩
  sharing x hx := by
    rcases h₂.sharing x hx with old | new
    · exact (h₁.sharing x old).imp_right fun new => ⟨new.1, Nat.lt_of_lt_of_le new.2 h₂.size⟩
    · exact .inr ⟨Nat.le_trans h₁.size new.1, new.2⟩

theorem plain (size : c.assembly.size ≤ c'.assembly.size) (only : Only Event.IsPlain c c') : Advances c c' where
  size := size
  adopted x hx := .inl (by rwa [MaterialGraph.adopted, only.filterMap_eq fun _ he => he.adopted?] at hx)
  sharing x hx := .inl (by rwa [MaterialGraph.sharing, only.filterMap_eq fun _ he => he.shared?] at hx)

theorem leafwork (size : c.assembly.size ≤ c'.assembly.size) (only : Leafwork c c') : Advances c c' :=
  plain size (only.mono fun _ he => he.isPlain)

theorem refl (c : Context σ) : Advances c c := .plain (Nat.le_refl _) (.refl c)

theorem message (c : Context σ) {e : Event} (message : IsMessage e) : Advances c (c.push e) :=
  .leafwork (Nat.le_refl _) (.message message)

theorem mark (c : Context σ) {e : Edit} (mark : IsMark e) : Advances c (c.edit e) := by
  cases mark <;> exact .plain (Nat.le_refl _) (.event rfl trivial)

theorem add (c : Context σ) (q : Part) : Advances c (c.edit (.add q)) :=
  .plain (Extends.add _ q).size (.event rfl trivial)

/-- A new part is noted, or one that is shared already is noted so again. -/
theorem edit {e : Edit} (advances : Advances c c₁) (size : c₁.assembly.size ≤ (c₁.assembly.apply e).size)
    (adopts : ∀ x, (Event.edited e).adopted? = some x → IsNew c c₁ x)
    (shares : ∀ x, (Event.edited e).shared? = some x → x ∈ MaterialGraph.sharing c.journal ∨ IsNew c c₁ x) :
    Advances c (c₁.edit e) where
  size := Nat.le_trans advances.size size
  adopted x hx := by
    have grow (new : IsNew c c₁ x) : IsNew c (c₁.edit e) x := ⟨new.1, Nat.lt_of_lt_of_le new.2 size⟩
    obtain ⟨event, mem, adopted⟩ := List.mem_filterMap.1 hx
    rcases List.mem_cons.1 mem with rfl | mem
    · exact .inr (grow (adopts x adopted))
    · exact (advances.adopted x (List.mem_filterMap.2 ⟨event, mem, adopted⟩)).imp_right grow
  sharing x hx := by
    have grow (new : IsNew c c₁ x) : IsNew c (c₁.edit e) x := ⟨new.1, Nat.lt_of_lt_of_le new.2 size⟩
    obtain ⟨event, mem, shared⟩ := List.mem_filterMap.1 hx
    rcases List.mem_cons.1 mem with rfl | mem
    · exact (shares x shared).imp_right grow
    · exact (advances.sharing x (List.mem_filterMap.2 ⟨event, mem, shared⟩)).imp_right grow

theorem starts {h : NodeGraph} {y : PartId} (starts : Starts h c y c') (faithful : Faithful c) :
    Advances c c' ∧ (y ∈ MaterialGraph.sharing c.journal ∨ IsNew c c' y) := by
  cases starts with
  | first =>
      have added := add c (.composite { graph := .named h })
      have new := isNew_added (Nat.le_refl c.assembly.size) (.composite { graph := .named h })
      refine ⟨added.edit (Nat.le_refl _) (fun x hx => by cases hx) fun x hx => ?_, .inr new⟩
      cases hx
      exact .inr new
  | again built =>
      have shared : y ∈ c.assembly.shared := mem_shared.2 (.inr (.inr ⟨h.name, _, built, rfl⟩))
      have known := mem_sharing_of_mem_shared (faithful.assembly.symm ▸ shared)
      refine ⟨(refl c).edit (Nat.le_refl _) (fun x hx => by cases hx) fun x hx => ?_, .inl known⟩
      cases hx
      exact .inl known

end Advances

/-- In a course, only new parts are noted. -/
theorem Course.advances {s : Scene} (h : Course W s p c c') (faithful : Faithful c) : Advances c c' := by
  have leaf {c c₁ : Context σ} (assembly : c₁.assembly = c.assembly) (only : Leafwork c c₁) (l : Leaf) :
      Advances c (c₁.edit (.add (.leaf l))) :=
    (Advances.leafwork (Nat.le_of_eq (by rw [assembly])) only).trans (.add _ _)
  have rebinds {c c₁ : Context σ} {S : PartId → Prop} (same : Rebinds S c.assembly c₁.assembly) (only : Leafwork c c₁) :
      Advances c c₁ := .leafwork (Nat.le_of_eq same.size.symm) only
  induction h with
  | refl => exact .refl _
  | trans first _ ih₁ ih₂ => exact (ih₁ faithful).trans (ih₂ (first.steps.moves.faithful faithful))
  | message _ message => exact .message _ message
  | cycle | busy => exact .message _ (.warning _)
  | mark _ mark => exact .mark _ mark
  | @task id g name p c c₁ success inner ih =>
      have begun : Faithful (c.edit (.began (.child id name))) := faithful.mark (.began _)
      exact ((Advances.mark c (.began _)).trans (ih begun)).trans (.mark c₁ (.ended _ _))
  | refused _ creation => exact .leafwork (Nat.le_of_eq (by rw [creation.assembly])) creation.leafwork
  | wrap _ creation => exact leaf creation.assembly creation.leafwork _
  | own _ _ _ ih | expansion _ _ _ _ ih => exact (Advances.add _ _).trans (ih (faithful.composite _))
  | shared _ _ _ ih | settle _ _ ih | overriding _ _ _ _ _ ih | search _ _ _ _ _ ih | output _ _ ih | give _ _ ih
    | input _ _ _ _ _ _ ih | follow _ _ ih | viaTop _ _ _ ih => exact ih faithful
  | leafChild _ _ _ _ makes =>
      refine (leaf makes.assembly makes.leafwork _).edit (Nat.le_of_eq (size_child _ _).symm) (fun x hx => ?_)
        fun x hx => by cases hx
      cases hx
      exact isNew_added (Nat.le_of_eq (by rw [makes.assembly])) _
  | @compositeChild id g n p c c₁ h _ _ inner ih =>
      refine ((Advances.add _ _).trans (ih (faithful.composite _))).edit (Nat.le_of_eq (size_child _ _).symm)
        (fun x hx => ?_) fun x hx => by cases hx
      cases hx
      have new := isNew_added (Nat.le_refl c.assembly.size) (.composite { graph := .named h })
      exact ⟨new.1, Nat.lt_of_lt_of_le new.2 inner.extends.size⟩
  | socket =>
      exact (Advances.refl _).edit (Nat.le_of_eq (size_socket _ _).symm) (fun x hx => by cases hx) fun x hx => by cases hx
  | link _ _ _ _ _ _ connected =>
      have connects := Connects.of_eq connected
      exact (rebinds connects.rebinds connects.leafwork).trans
        (.plain (Nat.le_of_eq (size_edge _).symm) (.event rfl trivial))
  | unlinked _ _ _ _ _ connected | connection _ _ connected =>
      have connects := Connects.of_eq connected
      exact rebinds connects.rebinds connects.leafwork
  | literal _ _ bound =>
      have binds := Binds.of_eq bound
      exact rebinds binds.rebinds binds.leafwork
  | geometry _ creation =>
      refine (leaf creation.assembly creation.leafwork _).edit (Nat.le_refl _) (fun x hx => by cases hx) fun x hx => ?_
      cases hx
      exact .inr (isNew_added (Nat.le_of_eq (by rw [creation.assembly])) _)
  | top =>
      refine (Advances.add _ _).edit (Nat.le_refl _) (fun x hx => by cases hx) fun x hx => ?_
      cases hx
      exact .inr (isNew_added (Nat.le_refl _) _)
  | @viaGraph s p c c₁ c₂ h g y required sub res wants starts graph way call inner ih =>
      obtain ⟨advances, known⟩ := Advances.starts starts faithful
      have advances₁ := ih ((starts.steps (r := W.renderer)).moves.faithful faithful)
      refine (advances.trans advances₁).edit (Nat.le_refl _) (fun x hx => by cases hx) fun x hx => ?_
      cases hx
      exact known.imp_right fun new => ⟨new.1, Nat.lt_of_lt_of_le new.2 advances₁.size⟩

/-! ## Groups -/

theorem course_ownValue (done : Bool) (r : ShaderRef) {i : Input} {c₀ : Context σ}
    (course : Course W (.override id i) p c₀ c) :
    After (if done then return () else match i.value? with
      | none => return ()
      | some value => do
        remark (.boundToLiteral i.name value i.type)
        match ← bindInput id i (.literal value i.type) with
        | .ok () => return ()
        | .error e => warn (.bindInput i.name r.name e)) (W.at p) c fun _ c' => Course W (.override id i) p c₀ c' := by
  split
  · exact after_pure.2 course
  · split
    · exact after_pure.2 course
    · next value literal =>
      rw [after_bind, after_remark, after_bind]
      intro res c₂ bound
      have acyclic := neverCyclic_bindInput id i (.literal value i.type) _ _ _ _ bound
      have binds := (course.trans (.remark _ _ _ _ _)).trans (.literal (.override id i) literal bound)
      cases res with
      | ok => exact after_pure.2 binds
      | error e =>
          dsimp only
          rw [after_warn]
          exact binds.trans (.message _ (.warning _) (acyclic.warning rfl))

theorem course_setBindInput {r : ShaderRef} {i : Input} (reference : gr.shaderRef = some r) (bind : i ∈ r.bindInputs)
    (houses : Houses W c) (graph : HasGraph c.assembly id gr.graph) (apart : IsApart c id) :
    After (setBindInput id r i) (W.at p) c fun _ c' => Course W (.settle gr id) p c c' := by
  have begun : Course W (.settle gr id) p c (c.edit (.began (.override id r i))) := .mark c (.began _) trivial
  have apart := apart.advances (.mark c (.began (.override id r i))) graph.lt_size
  rw [setBindInput, after_asTask, after_bind]
  refine (course_connectOutside leaves_part .part (begun.houses houses) (.override id i)).mono fun done c₁ outside => ?_
  refine (course_ownValue done r outside).mono fun _ _ course => ?_
  exact (begun.trans (.overriding reference bind graph apart course)).trans (.mark _ (.ended _ _) trivial)

theorem mem_of_choice {g : Graph} {chosen : Option String} {name : String}
    (h : (match chosen with
      | some name => g.output? name
      | none => g.outputs.head?).bind Output.nodeName? = some name) : ∃ o ∈ g.outputs, o.nodeName? = some name := by
  obtain ⟨o, found, named⟩ := Option.bind_eq_some_iff.1 h
  refine ⟨o, ?_, named⟩
  split at found
  · exact List.mem_of_find?_eq_some found
  · exact List.mem_of_head? found

theorem course_innerPart {g : Graph} {o : Output} {name : String} (child : c.assembly.child? id name = some x)
    (composite : HasGraph c.assembly x g) (houses : Houses W c) :
    After (innerPart x g o) (W.at p) c fun _ c' => Course W (.settle gr id) p c c' := by
  rw [innerPart]
  split
  · next e chosen =>
    rw [after_bind, after_warn, after_pure]
    exact .message c (.warning _) ((chosen ▸ acyclic_chooseOutput _ _ _ _).warning rfl)
  · dsimp only
    split
    · exact after_pure.2 (.refl _ _ _)
    · next name chosen =>
      obtain ⟨o, mem, named⟩ := mem_of_choice chosen
      rw [after_bind]
      refine (leaves_part p x name c houses).mono fun res c₁ leaves => ?_
      have course : Course W (.settle gr id) p c c₁ := .search child composite mem named (leaves g composite)
      cases res with
      | none => exact after_pure.2 course
      | some found =>
          dsimp only
          rw [after_bind, after_assembly, after_pure]
          exact course

theorem course_outputLeaf (gr : Group) {o : Output} (houses : Houses W c) :
    After (outputLeaf id o) (W.at p) c fun _ c' => Course W (.settle gr id) p c c' := by
  rw [outputLeaf, after_bind, after_assembly]
  split
  · exact after_pure.2 (.refl _ _ _)
  · next x named =>
    split
    · exact after_pure.2 (.refl _ _ _)
    · exact after_pure.2 (.refl _ _ _)
    · next k part =>
      obtain ⟨k', composite, named⟩ := Option.bind_eq_some_iff.1 named
      obtain ⟨name, -, there⟩ := Option.bind_eq_some_iff.1 named
      have nested : c.assembly.composite? x = some k := by rw [composite?, part]
      exact course_innerPart ((child?_of_composite? composite name).trans there) ⟨k, nested, rfl⟩ houses

theorem course_wrapSurface (gr : Group) (id : PartId) {h : Handle} {type : String}
    (holds : Holds c.assembly x h) :
    After (wrapSurface h type) (W.at p) c fun res c' => Acyclic res ∧ Course W (.settle gr id) p c c' := by
  rw [wrapSurface]
  split
  · rw [after_andThen]
    refine (after_createLeaf.and (neverCyclic_createLeaf _ _ _ _ _ _)).mono ?_
    rintro res c₁ ⟨creation, acyclic⟩
    refine ⟨?_, ?_⟩
    · rintro l rfl
      rw [after_bind, after_addPart, after_pure]
      exact ⟨acyclic_ok _, .wrap holds creation⟩
    · rintro e rfl
      refine ⟨acyclic.error, .refused (fun key h mem => ?_) creation⟩
      cases List.mem_singleton.1 mem
      exact ⟨_, holds⟩
  · exact after_pure.2 ⟨acyclic_coercion _, .refl _ _ _⟩

theorem course_rootOf {kind : OutputKind} {o : Output} (houses : Houses W c) :
    After (rootOf gr id kind o) (W.at p) c fun _ c' => Course W (.settle gr id) p c c' := by
  have warning (c : Context σ) {w : Warning} (cause : w.cause? = none) :
      Course W (.settle gr id) p c (c.push (.warned w)) := .message c (.warning _) (not_isCyclic_of_none cause)
  rw [rootOf, after_bind]
  refine (course_outputLeaf gr houses).mono fun leaf c₁ course => ?_
  cases leaf with
  | none =>
      dsimp only
      rw [after_bind, after_warn, after_pure]
      exact course.trans (warning c₁ rfl)
  | some leaf =>
      dsimp only
      rw [after_bind, after_assembly]
      split
      · rw [after_bind, after_warn, after_pure]
        exact course.trans (warning c₁ rfl)
      · next h holds =>
        split
        · rw [after_bind]
          refine (course_wrapSurface gr id holds).mono ?_
          rintro res c₂ ⟨acyclic, more⟩
          cases res with
          | ok wrap => exact after_pure.2 (course.trans more)
          | error e =>
              dsimp only
              rw [after_bind, after_warn, after_pure]
              exact (course.trans more).trans (.message _ (.warning _) (acyclic.warning rfl))
        · exact after_pure.2 course

theorem course_addRoot {harvest : Harvest} {o : OutputKind × Output} (houses : Houses W c) :
    After (addRoot gr id harvest o) (W.at p) c fun _ c' => Course W (.settle gr id) p c c' := by
  rw [addRoot, after_bind, after_asTask]
  refine (course_rootOf (c := c.edit _) (houses.mark (.began _))).mono ?_
  rintro ⟨root, added⟩ c₁ course
  have begun : Course W (.settle gr id) p c (c.edit (.began (.root id o.1))) := .mark c (.began _) trivial
  have all : Course W (.settle gr id) p c (c₁.edit (.ended (.root id o.1) root.isSome)) :=
    (begun.trans course).trans (.mark _ (.ended _ _) trivial)
  cases root <;> exact after_pure.2 all

theorem course_addRoots {harvest : Harvest} {outputs : List (OutputKind × Output)} {c₁ : Context σ}
    (houses : Houses W c) (course : Course W (.settle gr id) p c c₁) :
    After (outputs.foldlM (addRoot gr id) harvest) (W.at p) c₁ fun _ c' => Course W (.settle gr id) p c c' :=
  after_foldlM (I := fun _ c' => Course W (.settle gr id) p c c')
    (fun _ _ _ _ course => (course_addRoot (course.houses houses)).mono fun _ _ more => course.trans more) course

theorem course_reportGroup {e : LoadError} (acyclic : Acyclic (.error e : Result PartId)) :
    After (reportGroup e) (W.at p) c fun _ c' => Course W (.load selected) p c c' := by
  unfold reportGroup
  split
  · rw [after_remark]
    exact .remark _ _ _ _ _
  · rw [after_warn]
    exact .message c (.warning _) (acyclic.warning rfl)

/-- What has been noted has been added. -/
structure Settled (c : Context σ) : Prop where
  adopted : ∀ x ∈ adopted c.journal, x < c.assembly.size
  sharing : ∀ x ∈ sharing c.journal, x < c.assembly.size

theorem Settled.advances (settled : Settled c) (advances : Advances c c') : Settled c' where
  adopted x hx := (advances.adopted x hx).elim (fun old => Nat.lt_of_lt_of_le (settled.adopted x old) advances.size) (·.2)
  sharing x hx := (advances.sharing x hx).elim (fun old => Nat.lt_of_lt_of_le (settled.sharing x old) advances.size) (·.2)

/-- A part that is added now is apart. -/
theorem Settled.isApart (settled : Settled c) (q : Part) : IsApart (c.edit (.add q)) c.assembly.size := by
  refine ⟨fun h => ?_, fun h => ?_⟩
  · exact Nat.lt_irrefl _ (settled.adopted _ h)
  · exact Nat.lt_irrefl _ (settled.sharing _ h)

/-- A group that is reached through a shader reference has a composite that nothing shares. -/
def Lonely (gr : Group) (c : Context σ) (id : PartId) : Prop :=
  gr.shaderRef.isSome → HasGraph c.assembly id gr.graph ∧ IsApart c id

theorem lonely_of_none (none : gr.shaderRef = none) : Lonely gr c id := by
  intro through
  rw [none] at through
  cases through

theorem Lonely.course {s : Scene} (h : Lonely gr c id) (course : Course W s p c c') (faithful : Faithful c) :
    Lonely gr c' id := fun through =>
  let ⟨graph, apart⟩ := h through
  ⟨graph.extends course.extends, apart.advances (course.advances faithful) graph.lt_size⟩

/-- How it ends to get the composite of a group. -/
inductive Gathers (W : Env σ) (selected : List (OutputKind × Candidate)) (gr : Group) (p : Place) (c : Context σ) :
    Result PartId → Context σ → Prop
  | busy {text : String} {c₁ : Context σ}
      (course : Course W (.load selected) p c (c₁.push (.warned (.failed (.cycle text))))) :
      Gathers W selected gr p c (.error (.cycle text)) c₁
  | course {res : Result PartId} {c₁ : Context σ} (acyclic : Acyclic res) (course : Course W (.load selected) p c c₁)
      (lonely : ∀ id, res = .ok id → Lonely gr c₁ id) : Gathers W selected gr p c res c₁

theorem course_groupComposite (own : ∀ x ∈ selected, x.2.IsOf W.catalog) (mem : gr ∈ Group.ofSelected selected)
    (houses : Houses W c) (settled : Settled c) (faithful : Faithful c) :
    After (groupComposite gr) (W.at p) c (Gathers W selected gr p c) := by
  rw [groupComposite]
  cases through : gr.shaderRef with
  | some r =>
      refine (course_buildComposite leaves_part .part houses).mono ?_
      rintro res c₁ ⟨acyclic, size, -, inner⟩
      refine .course acyclic (.own mem (Option.isSome_iff_exists.2 ⟨r, through⟩) inner) fun id hid _ => ?_
      cases size id hid
      -- The composite is new: it has not been noted, and only later parts are noted.
      have graph := hasGraph_added (c := c) gr.graph
      exact ⟨graph.extends inner.extends,
        (settled.isApart _).advances (inner.advances (faithful.composite _)) graph.lt_size⟩
  | none =>
      have together {c₁ : Context σ} {res : Result PartId} (id : PartId) (_ : res = .ok id) : Lonely gr c₁ id :=
        lonely_of_none through
      cases graph : gr.graph with
      | document d =>
          dsimp only
          rw [after_bind]
          refine (course_topComposite (.load selected) p).mono ?_
          rintro t c₁ ⟨top, first⟩
          rw [after_andThen]
          refine (course_buildOutputs leaves_part (first.houses houses)).mono fun res c₂ h => ?_
          have course : Course W (.load selected) p c c₂ :=
            first.trans (.shared mem top (h.2 _ ((first.houses houses).top t top)))
          refine ⟨fun _ _ => after_pure.2 (.course (acyclic_ok _) course together), fun e he => ?_⟩
          exact .course (he ▸ h.1).error course together
      | named n =>
          obtain ⟨x, hx, same, shaderRef⟩ := (Group.collects_ofSelected selected gr mem).leader
          have found := Document.named_mem_graphs.1 (same.trans graph ▸ (own x hx).own (shaderRef.trans through))
          refine (course_freeStandingGraph leaves_part .part houses (.group mem graph through found)).mono ?_
          intro res c₁ obtains
          cases obtains with
          | busy wants building => exact .busy (.busy wants building)
          | course acyclic course => exact .course acyclic course together

/-- The inputs of the composite of a group are set as its shader reference says. -/
theorem course_setBindInputs {r : ShaderRef} (through : gr.shaderRef = some r) (houses : Houses W c)
    (faithful : Faithful c) (lonely : Lonely gr c id) :
    After (r.bindInputs.forM (setBindInput id r)) (W.at p) c fun _ c' => Course W (.settle gr id) p c c' := by
  refine after_forM (I := fun c' => Course W (.settle gr id) p c c') (fun i bind c₁ course => ?_) (.refl _ _ _)
  obtain ⟨graph, apart⟩ := (lonely.course course faithful) (Option.isSome_iff_exists.2 ⟨r, through⟩)
  exact (course_setBindInput through bind (course.houses houses) graph apart).mono fun _ _ => course.trans

theorem course_buildGroup {harvest : Harvest} (own : ∀ x ∈ selected, x.2.IsOf W.catalog)
    (mem : gr ∈ Group.ofSelected selected) (houses : Houses W c) (settled : Settled c) (faithful : Faithful c) :
    After (buildGroup harvest gr) (W.at p) c fun _ c' => Course W (.load selected) p c c' := by
  rw [buildGroup, after_bind]
  refine (course_groupComposite own mem houses settled faithful).mono fun res c₁ gathers => ?_
  cases gathers with
  | busy course =>
      change After (warn _ >>= fun _ => pure harvest) _ _ _
      rw [after_bind, after_warn, after_pure]
      exact course
  | course acyclic course lonely =>
      cases res with
      | error e =>
          dsimp only
          rw [after_bind]
          exact (course_reportGroup acyclic).mono fun _ _ more => after_pure.2 (course.trans more)
      | ok id =>
          have houses₁ := course.houses houses
          have faithful₁ := course.steps.moves.faithful faithful
          -- once the inputs are set, the roots are found
          have roots {harvest : Harvest} {c₂ : Context σ} (more : Course W (.settle gr id) p c₁ c₂) :
              After (gr.outputs.foldlM (addRoot gr id) harvest) (W.at p) c₂ fun _ c₃ =>
                Course W (.load selected) p c c₃ :=
            (course_addRoots houses₁ more).mono fun _ _ more => course.trans (.settle mem more)
          dsimp only
          split
          · next r through =>
            rw [after_bind]
            exact (course_setBindInputs through houses₁ faithful₁ (lonely id rfl)).mono fun _ _ more => roots more
          · exact roots (.refl _ _ _)

/-! ## Loads -/

/-- How a load closes, once nothing more is built: nodes are taken from leaves and deleted, and the end is noted. -/
inductive Closes (r : Renderer σ) (c : Context σ) : Context σ → Prop
  | released (xs : List PartId) : Closes r c (releasedAll r xs c)
  | finished (xs : List PartId) (parts nodes images : Nat) :
      Closes r c ((releasedAll r xs c).push (.finished parts nodes images))

theorem Closes.moves {r : Renderer σ} (h : Closes r c c') : Moves r c c' := by
  cases h with
  | released xs => exact moves_releasedAll xs c
  | finished xs => exact (moves_releasedAll xs c).tail (.message (.finished _ _ _))

theorem settled_start (system : σ) : Settled ({ system } : Context σ) :=
  ⟨fun _ hx => absurd hx List.not_mem_nil, fun _ hx => absurd hx List.not_mem_nil⟩

/-- Whatever each group keeps, a load keeps until it closes. -/
theorem closes_of_load {l : Loader} {d : Document} {options : LoadOptions} {fileExists : String → Bool}
    {r : Renderer σ} {s : σ} {o : Outcome σ} (h : l.load d options fileExists r s = some o) {I : Context σ → Prop}
    (start : I { system := s }) (warned : ∀ c w, w.cause? = none → I c → I (c.push (.warned w)))
    (group : ∀ g ∈ Group.ofSelected (Selection.choose (l.catalog d) options.targets).selected, ∀ harvest c, I c →
      After (buildGroup harvest g) ((l.env d options fileExists r).at (({} : Place).enter .global d.filePrefix)) c
        fun _ c' => I c') :
    ∃ c c', I c ∧ Closes r c c' ∧ o.system = c'.system ∧ o.journal = c'.journal.reverse := by
  obtain ⟨c', loaded, system, journal⟩ := built_of_load h
  suffices whole : After (loadDocument options.targets) (l.env d options fileExists r) { system := s } fun _ c' =>
      ∃ c, I c ∧ Closes r c c' by
    obtain ⟨c, kept, closes⟩ := whole _ _ loaded
    exact ⟨c, c', kept, closes, system, journal⟩
  rw [loadDocument, after_bind, after_catalog]
  dsimp only
  rw [after_within]
  split
  · rw [after_bind, after_warn, after_pure]
    exact ⟨_, warned _ _ rfl start, .released []⟩
  · rw [loadSelection, after_bind]
    refine (after_foldlM (I := fun _ c' => I c') (fun g mem harvest c kept => group g mem harvest c kept) start).mono ?_
    intro harvest c₁ kept
    split
    · rw [after_bind, after_catalog, after_bind, after_warn, after_bind, after_assembly, after_bind,
        after_releaseParts, after_pure]
      exact ⟨_, warned _ _ rfl kept, .released _⟩
    · rw [handOver, after_bind, after_assembly]
      dsimp only
      rw [after_bind, after_releaseParts, after_bind, after_emit, after_pure]
      exact ⟨c₁, kept, .finished _ _ _ _⟩

/-- A load that returns is a course about what is selected, and closes. -/
theorem course_of_load {l : Loader} {d : Document} {options : LoadOptions} {fileExists : String → Bool}
    {r : Renderer σ} {s : σ} {o : Outcome σ} (h : l.load d options fileExists r s = some o) :
    ∃ c c', Course (l.env d options fileExists r)
        (.load (Selection.choose (l.catalog d) options.targets).selected) (({} : Place).enter .global d.filePrefix)
        { system := s } c ∧
      Closes r c c' ∧ o.system = c'.system ∧ o.journal = c'.journal.reverse := by
  have own : ∀ x ∈ (Selection.choose (l.catalog d) options.targets).selected, x.2.IsOf (l.catalog d) :=
    Selection.isOf_of_chosen
  refine closes_of_load h (I := fun c => Course (l.env d options fileExists r)
    (.load (Selection.choose (l.catalog d) options.targets).selected) (({} : Place).enter .global d.filePrefix)
    { system := s } c) (.refl _ _ _) (fun c w cause course => ?_) fun g mem harvest c course => ?_
  · exact course.trans (.message _ (.warning _) (not_isCyclic_of_none cause))
  · have settled := (settled_start s).advances (course.advances (.start s))
    have faithful := course.steps.moves.faithful (.start s)
    exact (course_buildGroup own mem (course.houses (.start s)) settled faithful).mono fun _ _ => course.trans

end MaterialGraph.Build
