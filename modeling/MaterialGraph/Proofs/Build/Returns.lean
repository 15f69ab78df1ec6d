import MaterialGraph.Proofs.Build.Binding

/-!
# What always returns

* `total_bindLeaf` : to bind an input of a leaf always returns.
* `Descends` : children have larger numbers than their composites. Then every walk down from a part comes to
  its end: `isSome_outputHandle?`, `returns_bindInput`.
-/

namespace MaterialGraph.Build

set_option autoImplicit false

open Assembly

variable {σ : Type} {E : Env σ} {c : Context σ}

/-! ## Leaves -/

theorem total_perform (l : List Action) : Total (perform l : Build σ _) := by
  induction l with
  | nil => exact total_pure _
  | cons a l ih =>
      refine (total_act a).bind fun reply => ?_
      cases reply with
      | ok => exact ih
      | error => exact total_pure _

theorem total_createLeaf (type : NodeType) (role : Role) (settings : List (InputKey × Bound)) (name : Option String) :
    Total (createLeaf type role settings name : Build σ _) := by
  refine (total_create type).bind fun reply => ?_
  cases reply with
  | error => exact total_pure _
  | ok h =>
      refine total_read.bind fun env => (total_perform _).bind fun outcome => ?_
      cases outcome with
      | ok => exact total_pure _
      | error => exact (total_act _).bind fun _ => total_pure _

theorem total_release (x : PartId) (l : Leaf) : Total (release x l : Build σ Unit) := by
  refine (total_edit _).bind fun _ => ?_
  split
  · exact (total_act _).bind fun _ => total_pure _
  · exact total_pure _

theorem total_bindNative (h : Handle) (key : InputKey) (value : Bound) : Total (bindNative h key value : Build σ _) := by
  refine (total_act _).bind fun reply => ?_
  split <;> exact total_pure _

theorem total_bindMapped (l : Leaf) (m : Mapping) (i : Input) (b : Binding) :
    Total (bindMapped l m i b : Build σ _) := by
  unfold bindMapped
  split
  · exact total_pure _
  split
  · exact total_pure _
  split
  · exact total_bindNative _ _ _
  · split
    · exact total_pure _
    · exact total_bindNative _ _ _

theorem total_setImage (x : PartId) (l : Leaf) (p : ImageParams) : Total (setImage x l p : Build σ _) :=
  (total_edit _).bind fun _ => total_pure _

theorem total_setImageLiteral (x : PartId) (l : Leaf) (p : ImageParams) (i : Input) (value type : String) :
    Total (setImageLiteral x l p i value type : Build σ _) := by
  unfold setImageLiteral
  split
  case h_7 => exact total_read.bind fun _ => total_setImage _ _ _
  case h_11 =>
    split
    · exact total_pure _
    · exact total_setImage _ _ _
  case h_12 => exact total_bindMapped _ _ _ _
  all_goals first
    | exact total_setImage _ _ _
    | exact total_pure _

theorem total_setDisplacement (x : PartId) (l : Leaf) (name value type : String) :
    Total (setDisplacement x l name value type : Build σ _) := by
  refine (total_release x l).bind fun _ => ?_
  split
  · exact total_pure _
  · refine (total_createLeaf _ _ _ _).bind fun res => ?_
    split
    · exact total_pure _
    · exact (total_edit _).bind fun _ => total_pure _

theorem total_bindLeaf (x : PartId) (l : Leaf) (i : Input) (b : Binding) : Total (bindLeaf x l i b : Build σ _) := by
  unfold bindLeaf
  split
  case h_1 | h_2 => exact total_bindMapped _ _ _ _
  case h_3 => exact total_setImageLiteral _ _ _ _ _ _
  case h_4 =>
    split
    · exact (total_edit _).bind fun _ => total_pure _
    · exact total_pure _
  case h_6 =>
    split
    · split
      · exact (total_release _ _).bind fun _ => (total_edit _).bind fun _ => total_pure _
      · exact total_setDisplacement _ _ _ _ _
    · exact total_pure _
  all_goals exact total_pure _
/-! ## Ways down -/

/-- Children have larger numbers than their composites. -/
def Descends (a : Assembly) : Prop :=
  ∀ {id x : Nat} {name : String}, a.child? id name = some x → id < x ∧ x < a.size

theorem isSome_outputHandle? {a : Assembly} (descends : Descends a) {fuel : Nat} {x : PartId} {output : Option String}
    (enough : a.size - x < fuel) : (a.outputHandle? fuel x output).isSome := by
  induction fuel generalizing x output with
  | zero => exact absurd enough (Nat.not_lt_zero _)
  | succ fuel ih =>
      unfold outputHandle?
      split
      · rfl
      · rfl
      · next k hk =>
        split
        · rfl
        · next y next hb =>
          obtain ⟨name, child⟩ := child?_of_behind (composite?_eq_some.2 hk) hb
          obtain ⟨below, there⟩ := descends child
          exact ih (Nat.lt_of_lt_of_le (Nat.sub_lt_sub_left (Nat.lt_trans below there) below) (Nat.le_of_lt_succ enough))

/-- To look for the node behind an output of a part returns. -/
theorem returns_outputHandle (descends : Descends c.assembly) (x : PartId) (output : Option String) :
    Returns (outputHandle x output) E c := by
  obtain ⟨res, found⟩ := Option.isSome_iff_exists.1
    (@isSome_outputHandle? _ descends _ x output (Nat.lt_succ_of_le (Nat.sub_le _ _)))
  refine returns_bind.2 ⟨rfl, fun a c₁ h => ?_⟩
  cases h
  refine returns_bind.2 ⟨rfl, fun fuel c₂ h => ?_⟩
  cases h
  rw [found]
  rfl

theorem Rebinds.descends {S : PartId → Prop} {a a' : Assembly} (h : Rebinds S a a') (descends : Descends a) :
    Descends a' := by
  intro id x name child
  rw [h.size]
  exact descends ((h.child? id name).symm.trans child)

theorem returns_forAll {α : Type} {f : α → Build σ (Result Unit)} {l : List α} {I : Context σ → Prop}
    (step : ∀ a ∈ l, ∀ c, I c → Returns (f a) E c ∧ After (f a) E c fun _ c' => I c') (hc : I c) :
    Returns (forAll f l) E c := by
  induction l generalizing c with
  | nil => exact total_pure _ E c
  | cons a l ih =>
      rw [forAll, returns_bind]
      obtain ⟨returns, keeps⟩ := step a List.mem_cons_self c hc
      refine ⟨returns, keeps.mono fun first c₁ hc₁ => ?_⟩
      rw [returns_bind]
      refine ⟨ih (fun b hb => step b (List.mem_cons_of_mem _ hb)) hc₁, fun rest c₂ _ => ?_⟩
      cases first <;> exact total_pure _ E c₂

theorem returns_bindPart {fuel : Nat} {x : PartId} {i : Input} {b : Binding} (descends : Descends c.assembly)
    (enough : c.assembly.size - x < fuel) : Returns (bindPart fuel x i b) E c := by
  induction fuel generalizing x i c with
  | zero => exact absurd enough (Nat.not_lt_zero _)
  | succ fuel ih =>
      rw [bindPart, returns_bind, after_assembly]
      refine ⟨total_assembly E c, ?_⟩
      split
      · exact total_pure _ E c
      · exact total_bindLeaf _ _ _ _ E c
      · next k hk =>
        split
        · exact total_pure _ E c
        · next sockets _ =>
          rw [returns_bind]
          refine ⟨total_forM (fun _ => total_remark _) _ E c, ?_⟩
          have remarks : After (sockets.forM fun s => remark (.socket s.child s.input.name)) E c
              fun _ c' => Binds E.renderer x b c c' := after_forM_remark
          refine remarks.mono fun _ c₁ h₁ => ?_
          -- a child keeps its number while its siblings are bound, so the fuel is enough for each
          refine returns_forAll (I := fun c₂ => Binds E.renderer x b c c₂) (fun t ht c₂ h₂ => ?_) h₁
          obtain ⟨s, -, hs⟩ := List.mem_filterMap.1 ht
          obtain ⟨y, hy, rfl⟩ := Option.map_eq_some_iff.1 hs
          rw [← child?_of_composite? (composite?_eq_some.2 hk)] at hy
          obtain ⟨below, there⟩ := descends hy
          refine ⟨ih (h₂.rebinds.descends descends) ?_, after_bindPart.mono fun _ c₃ h₃ => ?_⟩
          · rw [h₂.rebinds.size]
            exact Nat.lt_of_lt_of_le (Nat.sub_lt_sub_left (Nat.lt_trans below there) below) (Nat.le_of_lt_succ enough)
          · exact h₂.trans (h₃.up (h₂.rebinds.below.2 (.child .refl hy)))

/-- To bind an input of a part returns. -/
theorem returns_bindInput (descends : Descends c.assembly) (x : PartId) (i : Input) (b : Binding) :
    Returns (bindInput x i b) E c :=
  returns_bind.2 ⟨rfl, fun _ _ h => by
    cases h
    exact returns_bindPart descends (Nat.lt_succ_of_le (Nat.sub_le _ _))⟩

end MaterialGraph.Build
