import MaterialGraph.Proofs.Course.Basic
import MaterialGraph.Proofs.Spelling

/-!
# Errors that are no cycles

A cycle is reported only where one is looked for: before two children are connected, and before a free-standing graph
is built. Whatever goes wrong when something is bound is another error.

* `Acyclic` : a result does not report a cycle; `NeverCyclic` : a build has no other results.
* `neverCyclic_bindInput`, `neverCyclic_connect` : to bind something never reports a cycle.
-/

namespace MaterialGraph.Build

set_option autoImplicit false

open Assembly

variable {σ α β : Type}

/-! ## Results -/

def Acyclic (res : Result α) : Prop := ∀ text, res ≠ .error (.cycle text)

def NeverCyclic (m : Build σ (Result α)) : Prop := ∀ E c, After m E c fun res _ => Acyclic res

theorem acyclic_ok (a : α) : Acyclic (.ok a : Result α) := nofun

theorem acyclic_unsupported (text : String) : Acyclic (.error (.unsupported text) : Result α) := nofun

theorem acyclic_malformed (text : String) : Acyclic (.error (.malformed text) : Result α) := nofun

theorem acyclic_noOutput (graph : String) : Acyclic (.error (.noOutput graph) : Result α) := nofun

theorem acyclic_coercion (text : String) : Acyclic (.error (.coercion text) : Result α) := nofun

theorem acyclic_native (e : CallError) : Acyclic (.error (.native e) : Result α) := nofun

theorem Acyclic.error {e : LoadError} (h : Acyclic (.error e : Result α)) : Acyclic (.error e : Result β) :=
  fun text he => h text (congrArg Except.error (Except.error.inj he))

theorem Acyclic.map {f : α → β} {res : Result α} (h : Acyclic res) : Acyclic (res.map f) := by
  cases res with
  | error e => exact h.error
  | ok a => exact acyclic_ok _

/-- A warning about an error that is not a cycle is not about a cycle. -/
theorem Acyclic.warning {e : LoadError} (h : Acyclic (.error e : Result α)) {w : Warning} (cause : w.cause? = some e) :
    ¬ (Event.warned w).IsCyclic := by
  rintro ⟨text, he⟩
  rw [cause] at he
  exact h text (congrArg Except.error (Option.some.inj he))

theorem not_isCyclic_of_none {w : Warning} (cause : w.cause? = none) : ¬ (Event.warned w).IsCyclic := by
  rintro ⟨text, he⟩
  rw [cause] at he
  cases he

theorem NeverCyclic.pure {res : Result α} (h : Acyclic res) : NeverCyclic (pure res : Build σ (Result α)) :=
  fun _ _ => after_pure.2 h

theorem NeverCyclic.bind {m : Build σ β} {f : β → Build σ (Result α)} (h : ∀ b, NeverCyclic (f b)) :
    NeverCyclic (m >>= f) :=
  fun E _ => after_bind.2 fun b c₁ _ => h b E c₁

theorem NeverCyclic.andThen {m : Build σ (Result β)} {f : β → Build σ (Result α)} (hm : NeverCyclic m)
    (hf : ∀ b, NeverCyclic (f b)) : NeverCyclic (andThen m f) :=
  fun E c => after_andThen.2 fun res c₁ h => ⟨fun a _ => hf a E c₁, fun e he => by
    have := hm E c res c₁ h
    rw [he] at this
    exact this.error⟩

/-! ## Literals and bindings -/

theorem acyclic_parse (text type : String) : Acyclic (Literal.parse text type) := by
  intro report refused
  cases (Literal.fails_of_parse refused).isUnsupported

theorem acyclic_float4Of (value type text : String) : Acyclic (float4Of value type (.unsupported text)) := by
  unfold float4Of
  split
  · next e he => exact (he ▸ acyclic_parse value type).error
  · split
    · exact acyclic_ok _
    · exact acyclic_unsupported _

theorem acyclic_leafHandle (l : Leaf) : Acyclic (leafHandle l) := by
  unfold leafHandle
  split
  · exact acyclic_ok _
  · exact acyclic_malformed _

theorem neverCyclic_bindNative (h : Handle) (key : InputKey) (value : Bound) :
    NeverCyclic (bindNative h key value : Build σ _) := by
  refine .bind fun reply => ?_
  split
  · exact .pure (acyclic_ok _)
  · exact .pure (acyclic_native _)

theorem neverCyclic_bindMapped (l : Leaf) (m : Mapping) (i : Input) (b : Binding) :
    NeverCyclic (bindMapped l m i b : Build σ _) := by
  unfold bindMapped
  split
  · exact .pure (acyclic_unsupported _)
  split
  · next e he => exact .pure (he ▸ acyclic_leafHandle l).error
  split
  · exact neverCyclic_bindNative _ _ _
  · split
    · next e he => exact .pure (he ▸ acyclic_float4Of _ _ _).error
    · exact neverCyclic_bindNative _ _ _

theorem neverCyclic_setImage (x : PartId) (l : Leaf) (params : ImageParams) :
    NeverCyclic (setImage x l params : Build σ _) :=
  .bind fun _ => .pure (acyclic_ok _)

theorem neverCyclic_setImageLiteral (x : PartId) (l : Leaf) (params : ImageParams) (i : Input) (value type : String) :
    NeverCyclic (setImageLiteral x l params i value type : Build σ _) := by
  unfold setImageLiteral
  split
  case h_7 => exact .bind fun _ => neverCyclic_setImage _ _ _
  case h_11 =>
    split
    · next e he => exact .pure (he ▸ acyclic_parse value _).error
    · exact neverCyclic_setImage _ _ _
  case h_12 => exact neverCyclic_bindMapped _ _ _ _
  all_goals first
    | exact neverCyclic_setImage _ _ _
    | exact .pure (acyclic_ok _)
    | exact .pure (acyclic_unsupported _)

theorem neverCyclic_createLeaf (type : NodeType) (role : Role) (settings : List (InputKey × Bound))
    (name : Option String) : NeverCyclic (createLeaf type role settings name : Build σ _) := by
  refine .bind fun reply => ?_
  split
  · exact .pure (acyclic_native _)
  · refine .bind fun env => .bind fun outcome => ?_
    split
    · exact .pure (acyclic_ok _)
    · exact .bind fun _ => .pure (acyclic_native _)

theorem neverCyclic_setDisplacement (x : PartId) (l : Leaf) (name value type : String) :
    NeverCyclic (setDisplacement x l name value type : Build σ _) := by
  refine .bind fun _ => ?_
  split
  · next e he => exact .pure (he ▸ acyclic_float4Of _ _ _).error
  · intro E c
    rw [after_bind]
    refine (neverCyclic_createLeaf _ _ _ _ E c).mono fun res c₁ acyclic => ?_
    split
    · exact after_pure.2 acyclic.error
    · exact NeverCyclic.bind (fun _ => .pure (acyclic_ok _)) E c₁

theorem neverCyclic_bindLeaf (x : PartId) (l : Leaf) (i : Input) (b : Binding) :
    NeverCyclic (bindLeaf x l i b : Build σ _) := by
  unfold bindLeaf
  split
  case h_1 | h_2 => exact neverCyclic_bindMapped _ _ _ _
  case h_3 => exact neverCyclic_setImageLiteral _ _ _ _ _ _
  case h_4 =>
    split
    · exact .bind fun _ => .pure (acyclic_ok _)
    · exact .pure (acyclic_unsupported _)
  case h_6 =>
    split
    · split
      · exact .bind fun _ => .bind fun _ => .pure (acyclic_ok _)
      · exact neverCyclic_setDisplacement _ _ _ _ _
    · exact .pure (acyclic_unsupported _)
  all_goals exact .pure (acyclic_unsupported _)

theorem neverCyclic_forAll {f : α → Build σ (Result Unit)} (hf : ∀ a, NeverCyclic (f a)) (l : List α) :
    NeverCyclic (forAll f l) := by
  induction l with
  | nil => exact .pure (acyclic_ok _)
  | cons a l ih =>
      intro E c
      rw [forAll, after_bind]
      refine (hf a E c).mono fun first c₁ acyclic => ?_
      rw [after_bind]
      refine (ih E c₁).mono fun rest c₂ acyclic' => ?_
      cases first with
      | error e => exact after_pure.2 acyclic
      | ok => exact after_pure.2 acyclic'

theorem neverCyclic_bindPart (fuel : Nat) (x : PartId) (i : Input) (b : Binding) :
    NeverCyclic (bindPart fuel x i b : Build σ _) := by
  induction fuel generalizing x i with
  | zero => exact fun _ _ => after_outOfFuel
  | succ fuel ih =>
      refine .bind fun a => ?_
      split
      · exact .pure (acyclic_malformed _)
      · exact neverCyclic_bindLeaf _ _ _ _
      · split
        · exact .pure (acyclic_unsupported _)
        · exact .bind fun _ => neverCyclic_forAll (fun (y, j) => ih y j) _

theorem neverCyclic_bindInput (x : PartId) (i : Input) (b : Binding) : NeverCyclic (bindInput x i b : Build σ _) :=
  .bind fun _ => neverCyclic_bindPart _ _ _ _

theorem acyclic_chooseOutput (type : String) (outputs : List Output) (requested : Option String) (consumer : String) :
    Acyclic (chooseOutput type outputs requested consumer) := by
  unfold chooseOutput
  split
  · exact acyclic_ok _
  · split
    · exact acyclic_malformed _
    · split
      · exact acyclic_ok _
      · exact acyclic_malformed _

theorem acyclic_behind (k : Composite) (output : Option String) : Acyclic (behind k output) := by
  unfold behind
  dsimp only
  split
  · exact acyclic_malformed _
  · split
    · exact acyclic_malformed _
    · exact acyclic_ok _

theorem acyclic_outputHandle? {a : Assembly} {fuel : Nat} {x : PartId} {output : Option String} {res : Result Handle}
    (h : a.outputHandle? fuel x output = some res) : Acyclic res := by
  induction fuel generalizing x output with
  | zero => cases h
  | succ fuel ih =>
      unfold outputHandle? at h
      split at h
      · cases h
        exact acyclic_malformed _
      · cases h
        exact acyclic_leafHandle _
      · split at h
        · next he =>
          cases h
          exact (he ▸ acyclic_behind _ output).error
        · exact ih h

theorem neverCyclic_outputHandle (x : PartId) (output : Option String) :
    NeverCyclic (outputHandle x output : Build σ _) :=
  .bind fun _ => .bind fun _ _ _ => after_ofOption.2 fun _ h => acyclic_outputHandle? h

/-- A connection never reports a cycle. That is found out before. -/
theorem neverCyclic_connect (x : PartId) (output : Option String) (y : PartId) (i : Input) :
    NeverCyclic (connect x output y i : Build σ _) := fun E _ =>
  after_asTask.2 (NeverCyclic.andThen (neverCyclic_outputHandle x output) (fun _ => neverCyclic_bindInput y i _) E _)

end MaterialGraph.Build
