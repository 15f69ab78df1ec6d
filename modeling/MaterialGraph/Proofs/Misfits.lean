import MaterialGraph.Proofs.Overrides
import MaterialGraph.Proofs.Targets

/-!
# Values that cannot stand for a surface

What is selected for the surface is a surface, or a value that can stand for one. So no load complains of a value that
cannot, although the last step before a root checks its type again.

* `Quiet` : a build makes no such complaint, wherever it starts. One lemma for each way to put builds together, and one
  for each function that builds parts.
* `Selection.kind?_of_chosen` : what is selected for a kind is of that kind.
* `no_misfit_of_load` : no load makes such a complaint.
-/

namespace MaterialGraph

set_option autoImplicit false

open Build Assembly

variable {σ α β : Type}

/-- A complaint that a value cannot stand for a surface. -/
def Event.IsMisfit (e : Event) : Prop := ∃ name text, e = .warned (.wrap name (.coercion text))

theorem Event.IsSilent.not_isMisfit {e : Event} (h : e.IsSilent) : ¬ e.IsMisfit := by
  rintro ⟨name, text, rfl⟩
  exact h

namespace Build

def Quiet (m : Build σ α) : Prop := ∀ E c, After m E c fun _ c' => Only (fun e => ¬ e.IsMisfit) c c'

namespace Quiet

theorem pure (a : α) : Quiet (pure a : Build σ α) := fun _ c => after_pure.2 (.refl c)

theorem bind {m : Build σ α} {f : α → Build σ β} (hm : Quiet m) (hf : ∀ a, Quiet (f a)) : Quiet (m >>= f) := fun E c =>
  after_bind.2 ((hm E c).mono fun a c₁ first => (hf a E c₁).mono fun _ _ rest => first.trans rest)

theorem andThen {m : Build σ (Result α)} {f : α → Build σ (Result β)} (hm : Quiet m) (hf : ∀ a, Quiet (f a)) :
    Quiet (andThen m f) := by
  refine bind hm fun res => ?_
  cases res with
  | error e => exact pure _
  | ok a => exact hf a

theorem within {level : Level} {filePrefix : Option String} {m : Build σ α} (hm : Quiet m) :
    Quiet (within level filePrefix m) := fun E c => hm (E.at _) c

theorem event {e : Event} (fine : ¬ e.IsMisfit) : Quiet (emit e : Build σ Unit) := fun _ _ =>
  after_emit.2 (.event rfl fine)

theorem remark (r : Remark) : Quiet (remark r : Build σ Unit) := fun _ _ => after_remark.2 (.event rfl nofun)

theorem warn {w : Warning} (fine : ∀ name text, w ≠ .wrap name (.coercion text)) : Quiet (warn w : Build σ Unit) :=
  event fun ⟨name, text, same⟩ => fine name text (Event.warned.inj same)

theorem edit (e : Edit) : Quiet (edit e : Build σ Unit) := fun _ _ => after_edit.2 (.event rfl nofun)

theorem assembly : Quiet (assembly : Build σ Assembly) := fun _ c => after_assembly.2 (.refl c)

theorem catalog : Quiet (catalog : Build σ Catalog) := fun _ c => after_catalog.2 (.refl c)

theorem outOfFuel : Quiet (outOfFuel : Build σ α) := fun _ _ => after_outOfFuel

theorem addPart (q : Part) : Quiet (addPart q : Build σ PartId) := fun _ _ => after_addPart.2 (.event rfl nofun)

theorem asTask {t : Task} {succeeds : α → Bool} {m : Build σ α} (hm : Quiet m) : Quiet (asTask t succeeds m) :=
  bind (edit _) fun _ => bind hm fun _ => bind (edit _) fun _ => pure _

theorem mapM {f : α → Build σ β} (hf : ∀ a, Quiet (f a)) (l : List α) : Quiet (l.mapM f) := by
  induction l with
  | nil => exact pure _
  | cons a l ih =>
      rw [List.mapM_cons]
      exact bind (hf a) fun _ => bind ih fun _ => pure _

theorem forM {f : α → Build σ Unit} (hf : ∀ a, Quiet (f a)) (l : List α) : Quiet (l.forM f) := by
  induction l with
  | nil => exact pure _
  | cons a l ih => exact bind (hf a) fun _ => ih

theorem foldlM {f : β → α → Build σ β} {l : List α} (hf : ∀ a ∈ l, ∀ b, Quiet (f b a)) (b : β) :
    Quiet (l.foldlM f b) := by
  induction l generalizing b with
  | nil => exact pure _
  | cons a l ih =>
      rw [List.forall_mem_cons] at hf
      rw [List.foldlM_cons]
      exact bind (hf.1 b) fun _ => ih hf.2 _

end Quiet

/-! ## Leaves and bindings -/

theorem quiet_createLeaf (type : NodeType) (role : Role) (settings : List (InputKey × Bound)) (name : Option String) :
    Quiet (createLeaf type role settings name : Build σ (Result Leaf)) := fun _ _ =>
  after_createLeaf.mono fun _ _ creation => creation.silent.mono fun _ he => he.not_isMisfit

theorem quiet_bindInput (x : PartId) (i : Input) (b : Binding) : Quiet (bindInput x i b : Build σ (Result Unit)) :=
  fun _ _ => after_bindInput.mono fun _ _ binds => binds.silent.mono fun _ he => he.not_isMisfit

theorem quiet_release (x : PartId) (l : Leaf) : Quiet (release x l : Build σ Unit) := fun _ _ =>
  after_release.2 ((silent_released x l).mono fun _ he => he.not_isMisfit)

theorem quiet_connect (x : PartId) (output : Option String) (y : PartId) (i : Input) :
    Quiet (connect x output y i : Build σ (Result Unit)) := by
  have found : Quiet (outputHandle x output : Build σ (Result Handle)) := fun _ c =>
    after_outputHandle.mono fun _ _ held => by
    rw [held.1]
    exact .refl c
  exact .asTask (.andThen found fun h => quiet_bindInput y i (.node h))

theorem quiet_connectChildren (id : PartId) (e : Edge) (x : PartId) (output : Option String) (y : PartId) (i : Input) :
    Quiet (connectChildren id e x output y i : Build σ (Result Unit)) := by
  have free : Quiet (closesCycle id e : Build σ (Option Composite)) := .bind .assembly fun a => by
    split <;> exact .pure _
  refine .bind free fun res => ?_
  split
  · exact .pure _
  · exact .andThen (quiet_connect _ _ _ _) fun _ => .bind (.edit _) fun _ => .pure _

/-! ## Parts outside a graph -/

section

variable {sub : SubPart σ} (hsub : ∀ id name, Quiet (sub id name))

include hsub

theorem quiet_buildOutputs (id : PartId) (required : List Output) : Quiet (buildOutputs sub id required) := by
  have one (g : Graph) (o : Output) : Quiet (buildOutput sub id g o) := by
    refine .bind (.remark _) fun _ => .bind (hsub _ _) fun res => ?_
    split
    · exact .pure _
    · exact .bind (.warn nofun) fun _ => .pure _
  refine .bind .assembly fun a => ?_
  split
  · exact .pure _
  · exact .bind (.remark _) fun _ => .within (.bind (.mapM (one _) _) fun _ => .pure _)

theorem quiet_buildComposite (g : Graph) (required : List Output) : Quiet (buildComposite sub g required) :=
  .bind (.addPart _) fun _ => .andThen (quiet_buildOutputs hsub _ _) fun _ => .pure _

omit hsub in
theorem quiet_topComposite : Quiet (topComposite : Build σ PartId) := by
  refine .bind .assembly fun a => ?_
  split
  · exact .pure _
  · exact .bind .catalog fun _ => .bind (.addPart _) fun _ => .bind (.edit _) fun _ => .pure _

theorem quiet_topPart (n : Node) : Quiet (topPart sub n) :=
  .bind .catalog fun _ => .bind quiet_topComposite fun _ => .within (hsub _ _)

theorem quiet_freeStandingGraph (g : NodeGraph) (required : List Output) :
    Quiet (freeStandingGraph sub g required) := by
  have rest (x : PartId) : Quiet (do
      edit (.freeStanding g.name (.building x))
      let outcome ← buildOutputs sub x required
      edit (.freeStanding g.name (.built x))
      return outcome.map fun () => x : Build σ (Result PartId)) :=
    .bind (.edit _) fun _ => .bind (quiet_buildOutputs hsub _ _) fun _ => .bind (.edit _) fun _ => .pure _
  refine .bind .assembly fun a => ?_
  split
  · exact .pure _
  · split
    · exact .bind (.pure _) fun _ => rest _
    · exact .bind (.addPart _) fun _ => rest _

omit hsub in
theorem quiet_geomPart (g : GeomPropDef) : Quiet (geomPart g : Build σ (Option PartId)) := fun E c => by
  refine consults_geomPart.mono fun res c' consults => ?_
  induction consults with
  | known => exact .refl _
  | strange _ _ ih => exact (Only.event rfl nofun).trans ih
  | unread => exact .event rfl nofun
  | failed _ call => exact ((quiet_createLeaf _ _ _ _ _ _).of_eq call).push nofun
  | made _ call => exact (((quiet_createLeaf _ _ _ _ _ _).of_eq call).edit nofun).edit nofun

theorem quiet_buildNode (n : Node) : Quiet (buildNode sub n) := fun E c => by
  refine builds_buildNode.mono fun res c' builds => ?_
  cases builds with
  | unknown | unexpanded => exact .refl _
  | forward => exact .event rfl nofun
  | created _ call => exact ((quiet_createLeaf _ _ _ _ _ _).of_eq call).edit nofun
  | failed _ call => exact (quiet_createLeaf _ _ _ _ _ _).of_eq call
  | expanded _ _ call => exact (quiet_buildComposite hsub _ _ _ _).of_eq call

/-! ## Inputs -/

theorem quiet_connectOutside (element : Input) (y : PartId) (i : Input) : Quiet (connectOutside sub element y i) := by
  have report (x : PartId) (output : Option String) : Quiet (reportConnect x output y i : Build σ Bool) := by
    refine .bind (quiet_connect _ _ _ _) fun res => ?_
    split
    · exact .pure _
    · exact .bind (.warn nofun) fun _ => .pure _
  unfold connectOutside
  split
  · exact .pure _
  · split
    · refine .bind .catalog fun _ => ?_
      split
      · exact .bind (.warn nofun) fun _ => .pure _
      · split
        · exact .bind (.warn nofun) fun _ => .pure _
        · refine .bind (quiet_freeStandingGraph hsub _ _) fun res => ?_
          split
          · exact .bind (.warn nofun) fun _ => .pure _
          · exact .bind (.remark _) fun _ => report _ _
    · refine .bind .catalog fun _ => ?_
      split
      · exact .pure _
      · split
        · exact .bind (.warn nofun) fun _ => .pure _
        · refine .bind (quiet_topPart hsub _) fun res => ?_
          split
          · exact .pure _
          · exact .bind (.remark _) fun _ => report _ _

omit hsub in
theorem quiet_connectInside (id : PartId) (g : Graph) (n : Node) (y : PartId) (i element : Input) (name : String) :
    Quiet (connectInside id g n y i element name : Build σ Resolution) := by
  refine .bind (.remark _) fun _ => ?_
  split
  · exact .bind (.warn nofun) fun _ => .pure _
  · refine .bind .catalog fun _ => ?_
    dsimp only
    split
    · exact .bind (.warn nofun) fun _ => .pure _
    · refine .bind .assembly fun _ => ?_
      split
      · exact .pure _
      · refine .bind (quiet_connectChildren _ _ _ _ _ _) fun res => ?_
        split
        · exact .bind (.remark _) fun _ => .pure _
        · split
          · exact .bind (.remark _) fun _ => .pure _
          · exact .bind (.warn nofun) fun _ => .pure _

omit hsub in
theorem quiet_bindGeomProp (property : String) (y : PartId) (i : Input) :
    Quiet (bindGeomProp property y i : Build σ Unit) := by
  refine .bind .catalog fun _ => ?_
  split
  · exact .warn nofun
  · refine .bind (quiet_geomPart _) fun res => ?_
    split
    · exact .pure _
    · refine .bind (quiet_connect _ _ _ _) fun res => ?_
      split
      · exact .pure _
      · split
        · exact .remark _
        · exact .warn nofun

omit hsub in
theorem quiet_bindLiteral (element : Input) (n : Node) (y : PartId) (i : Input) :
    Quiet (bindLiteral element n y i : Build σ Unit) := by
  unfold bindLiteral
  split
  · exact .pure _
  · refine .bind (.remark _) fun _ => .bind (quiet_bindInput _ _ _) fun res => ?_
    split
    · exact .pure _
    · split
      · exact .remark _
      · exact .warn nofun

theorem quiet_bindElement (id : PartId) (g : Graph) (n : Node) (y : PartId) (i element : Input) :
    Quiet (bindElement sub id g n y i element) := by
  unfold bindElement
  dsimp only
  split
  case' h_1 => refine .bind (quiet_connectInside _ _ _ _ _ _ _) fun resolution => ?_
  case' h_2 => refine .bind (.pure _) fun resolution => ?_
  all_goals
    cases resolution with
    | settled => exact .pure _
    | deferred p => exact .pure _
    | unsettled =>
        refine .bind (quiet_connectOutside hsub _ _ _) fun done => ?_
        split
        · exact .pure _
        · split
          · exact .bind (quiet_bindGeomProp _ _ _) fun _ => .pure _
          · exact .bind (quiet_bindLiteral _ _ _ _) fun _ => .pure _

theorem quiet_resolveInput (id : PartId) (n : Node) (y : PartId) (i : Input) :
    Quiet (resolveInput sub id n y i) := by
  have read (g : Graph) : Quiet (effectiveInput id g n i : Build σ Input) := by
    unfold effectiveInput
    split
    · exact .pure _
    · split
      · exact .pure _
      · exact .bind (.edit _) fun _ => .bind .catalog fun _ => .pure _
  refine .bind .assembly fun a => ?_
  split
  · exact .pure _
  · refine .bind (read _) fun element => ?_
    split
    · exact quiet_bindElement hsub _ _ _ _ _ _
    · exact .bind (quiet_bindLiteral _ _ _ _) fun _ => .pure _

theorem quiet_resolveInputs (id : PartId) (n : Node) (y : PartId) : Quiet (resolveInputs sub id n y) := by
  refine .bind .catalog fun _ => ?_
  split
  · exact .bind (.warn nofun) fun _ => .pure _
  · exact .bind (.mapM (fun i => .bind (.remark _) fun _ => .within (quiet_resolveInput hsub _ _ _ _)) _) fun _ =>
      .pure _

/-! ## Children -/

theorem quiet_buildChild (id : PartId) (n : Node) : Quiet (buildChild sub id n) := by
  have report (e : LoadError) : Quiet (reportNode n e : Build σ Unit) := by
    unfold reportNode
    split
    · exact .remark _
    · split
      · exact .remark _
      · exact .warn nofun
  refine .bind .assembly fun a => ?_
  split
  · exact .pure _
  · refine .bind (.remark _) fun _ => .within (.bind (quiet_buildNode hsub n) fun res => ?_)
    split
    · exact .bind (report _) fun _ => .pure _
    · exact .bind (.edit _) fun _ => .bind (quiet_resolveInputs hsub _ _ _) fun _ => .pure _

theorem quiet_followLink (id : PartId) (n : Node) (y : Option PartId) (link : Option Link) :
    Quiet (followLink sub id n y link) := by
  have pending (link : Link) (y x : PartId) : Quiet (connectPending id n link y x : Build σ Unit) := by
    refine .bind (quiet_connectChildren _ _ _ _ _ _) fun res => ?_
    split
    · exact .remark _
    · exact .warn nofun
  cases link with
  | none => exact .pure _
  | some link =>
      refine .bind (quiet_buildChild hsub _ _) fun res => ?_
      dsimp only
      split
      · exact .bind (pending _ _ _) fun _ => .pure _
      · exact .bind (.pure _) fun _ => .pure _

theorem quiet_drain (id : PartId) (root : String) (fuel : Nat) (stack : List Pending) (found : Option PartId) :
    Quiet (drain sub id root fuel stack found) := by
  induction fuel generalizing stack found with
  | zero => cases stack <;> first | exact .pure _ | exact .outOfFuel
  | succ fuel ih =>
      cases stack with
      | nil => exact .pure _
      | cons q stack =>
          exact .bind (quiet_buildChild hsub _ _) fun _ => .bind (quiet_followLink hsub _ _ _ _) fun _ => ih _ _

theorem quiet_childPartWith (id : PartId) (name : String) : Quiet (childPartWith sub id name) := by
  refine .asTask (.bind .assembly fun a => ?_)
  split
  · exact .pure _
  · split
    · exact .pure _
    · split
      · exact .bind (.warn nofun) fun _ => .pure _
      · exact .bind .catalog fun _ => quiet_drain hsub _ _ _ _ _

end

theorem quiet_part (id : PartId) (name : String) : Quiet (part id name : Build σ (Option PartId)) := by
  have parts (fuel : Nat) : ∀ id name, Quiet (childPart fuel id name : Build σ (Option PartId)) := by
    induction fuel with
    | zero => exact fun _ _ => .outOfFuel
    | succ fuel ih => exact quiet_childPartWith ih
  exact .bind .catalog fun _ => parts _ id name

/-! ## Groups -/

theorem quiet_groupComposite (g : Group) : Quiet (groupComposite g : Build σ (Result PartId)) := by
  unfold groupComposite
  split
  · exact quiet_buildComposite quiet_part _ _
  · exact .bind quiet_topComposite fun _ => .andThen (quiet_buildOutputs quiet_part _ _) fun _ => .pure _
  · exact quiet_freeStandingGraph quiet_part _ _

theorem quiet_setBindInput (id : PartId) (r : ShaderRef) (i : Input) : Quiet (setBindInput id r i : Build σ Unit) := by
  refine .asTask (.bind (quiet_connectOutside quiet_part _ _ _) fun done => ?_)
  split
  · exact .pure _
  · split
    · exact .pure _
    · refine .bind (.remark _) fun _ => .bind (quiet_bindInput _ _ _) fun res => ?_
      split
      · exact .pure _
      · exact .warn nofun

theorem quiet_outputLeaf (id : PartId) (o : Output) : Quiet (outputLeaf id o : Build σ (Option PartId)) := by
  have inner (x : PartId) (g : Graph) : Quiet (innerPart x g o : Build σ (Option PartId)) := by
    unfold innerPart
    split
    · exact .bind (.warn nofun) fun _ => .pure _
    · dsimp only
      split
      · exact .pure _
      · refine .bind (quiet_part _ _) fun res => ?_
        split
        · exact .pure _
        · exact .bind .assembly fun _ => .pure _
  refine .bind .assembly fun a => ?_
  split
  · exact .pure _
  · split
    · exact .pure _
    · exact .pure _
    · exact inner _ _

/-- A value of a type that can stand for a surface is refused by the renderer at most. -/
theorem wrapSurface_refused {E : Env σ} {c : Context σ} (h : Handle) {type : String}
    (wrappable : OutputKind.wrappable.contains type = true) :
    After (wrapSurface h type) E c fun res _ => ∀ e, res = .error e → ∃ reply, e = .native reply := by
  rw [wrapSurface, if_pos wrappable, after_andThen]
  refine after_createLeaf.mono fun res c₁ creation => ⟨fun l _ => ?_, fun e hres => ?_⟩
  · rw [after_bind, after_addPart, after_pure]
    rintro e ⟨⟩
  · subst hres
    rintro _ ⟨⟩
    cases creation with
    | refused => exact ⟨_, rfl⟩
    | undone => exact ⟨_, rfl⟩

theorem quiet_rootOf (g : Group) (id : PartId) {kind : OutputKind} {o : Output}
    (fits : OutputKind.ofType? o.type = some kind) :
    Quiet (rootOf g id kind o : Build σ (Option PartId × List PartId)) := by
  have wrapping (h : Handle) : Quiet (wrapSurface h o.type : Build σ (Result PartId)) := by
    unfold wrapSurface
    split
    · exact .andThen (quiet_createLeaf _ _ _ _) fun _ => .bind (.addPart _) fun _ => .pure _
    · exact .pure _
  refine .bind (quiet_outputLeaf _ _) fun found => ?_
  split
  · exact .bind (.warn nofun) fun _ => .pure _
  · refine .bind .assembly fun a => ?_
    split
    · exact .bind (.warn nofun) fun _ => .pure _
    · next h _ =>
      split
      · next value =>
        obtain ⟨rfl, other⟩ := value
        have wrappable : OutputKind.wrappable.contains o.type = true := by
          unfold OutputKind.ofType? at fits
          rw [if_neg other] at fits
          split at fits
          · cases fits
          · split at fits
            · assumption
            · cases fits
        intro E c
        rw [after_bind]
        refine ((wrapping h E c).and (wrapSurface_refused h wrappable)).mono ?_
        rintro res c₁ ⟨only, refused⟩
        cases res with
        | ok wrap => exact after_pure.2 only
        | error e =>
            obtain ⟨reply, rfl⟩ := refused e rfl
            dsimp only
            rw [after_bind, after_warn, after_pure]
            exact only.push fun ⟨_, _, same⟩ => by cases same
      · exact .pure _

theorem quiet_buildGroup {g : Group} (fits : ∀ o ∈ g.outputs, OutputKind.ofType? o.2.type = some o.1)
    (harvest : Harvest) : Quiet (buildGroup harvest g : Build σ Harvest) := by
  have report (e : LoadError) : Quiet (reportGroup e : Build σ Unit) := by
    unfold reportGroup
    split
    · exact .remark _
    · exact .warn nofun
  have roots (id : PartId) (harvest : Harvest) : Quiet (g.outputs.foldlM (addRoot g id) harvest : Build σ Harvest) :=
    .foldlM (fun o mem harvest => .bind (.asTask (quiet_rootOf g id (fits o mem))) fun res => by
      obtain ⟨root, added⟩ := res
      cases root <;> exact .pure _) harvest
  refine .bind (quiet_groupComposite g) fun res => ?_
  split
  · exact .bind (report _) fun _ => .pure _
  · split
    · dsimp only
      exact .bind (.forM (quiet_setBindInput _ _) _) fun _ => roots _ _
    · exact roots _ _

end Build

/-! ## Loads -/

/-- What is selected for a kind is of that kind. -/
theorem Selection.kind?_of_chosen {C : Catalog} {targets : Option (PerKind String)} {k : OutputKind} {cand : Candidate}
    (filled : (choose C targets).get k = .filled cand) : cand.kind? = some k := by
  have found {l : Option Candidate} (fill : Slot.empty.fill l = .filled cand) : l = some cand := by
    cases l with
    | none => cases fill
    | some c =>
        cases fill
        rfl
  have first (known : discovered C k = some cand) : cand.kind? = some k := by
    obtain ⟨e, -, known⟩ := List.exists_of_findSome?_eq_some known
    exact Candidate.kind?_of_find? known
  cases targets with
  | none =>
      rw [get_choose_none] at filled
      exact first (found filled)
  | some targets =>
      by_cases off : targets.get k = ""
      · rw [get_choose_of_empty off] at filled
        cases filled
      · rw [get_choose k off] at filled
        rcases Option.or_eq_some_iff.1 (found filled) with near | ⟨-, known⟩
        · obtain ⟨e, -, known⟩ := Option.bind_eq_some_iff.1 near
          exact Candidate.kind?_of_find? known
        · exact first known

/-- No load complains that what was selected for the surface cannot stand for one. -/
theorem no_misfit_of_load {l : Loader} {d : Document} {options : LoadOptions} {fileExists : String → Bool}
    {r : Renderer σ} {s : σ} {o : Outcome σ} (loaded : l.load d options fileExists r s = some o) :
    ∀ e ∈ o.journal, ¬ e.IsMisfit := by
  have fits : ∀ g ∈ l.groups d options, ∀ out ∈ g.outputs, OutputKind.ofType? out.2.type = some out.1 := by
    intro g hg out hout
    obtain ⟨x, mem, rfl, -⟩ := (Group.collects_ofSelected _ g hg).outputs out hout
    exact Selection.kind?_of_chosen (Selection.mem_selected.1 mem)
  have releasing (xs : List PartId) : Quiet (releaseParts xs : Build σ Unit) := .forM (fun x => .bind .assembly fun a => by
    split
    · exact quiet_release _ _
    · exact .pure _) xs
  have quiet : After (loadDocument options.targets) (l.env d options fileExists r) { system := s } fun _ c' =>
      Only (fun e => ¬ e.IsMisfit) { system := s } c' := by
    rw [loadDocument, after_bind, after_catalog]
    dsimp only
    rw [after_within]
    split
    · exact (Quiet.bind (.warn fun _ _ same => by cases same) fun _ => .pure _) _ _
    · refine (Quiet.bind (.foldlM (fun g hg harvest => quiet_buildGroup (fits g hg) harvest) _) fun harvest => ?_) _ _
      split
      · exact .bind .catalog fun _ => .bind (.warn fun _ _ same => by cases same) fun _ => .bind .assembly fun _ =>
          .bind (releasing _) fun _ => .pure _
      · exact .bind .assembly fun _ => .bind (releasing _) fun _ =>
          .bind (.event (by rintro ⟨_, _, ⟨⟩⟩)) fun _ => .pure _
  obtain ⟨c, built, -, journal⟩ := built_of_load loaded
  obtain ⟨new, only, fine⟩ := quiet _ _ built
  rw [List.append_nil] at only
  rw [journal, only]
  exact fun e he => fine e (List.mem_reverse.1 he)

end MaterialGraph
