import MaterialGraph.Proofs.Build.Calls
import MaterialGraph.Proofs.Build.Calm

/-!
# What binding does

The functions that bind inputs, as runs: `bindInput` binds leaves below the part that takes the input, `connect` binds
what a leaf below the producer holds, and `connectChildren` does so between two children of a composite unless the
composite says that a cycle would arise.
-/

namespace MaterialGraph.Build

set_option autoImplicit false

open Assembly

variable {σ : Type} {r : Renderer σ} {E W : Env σ} {c c' : Context σ}

/-! ## Ways down -/

theorem below_trans {a : Assembly} {x y z : PartId} (h₁ : Below a x y) (h₂ : Below a y z) : Below a x z := by
  induction h₂ with
  | refl => exact h₁
  | child _ child ih => exact ih.child child

/-- Behind an output of a composite stands a child. -/
theorem child?_of_behind {a : Assembly} {x y : PartId} {k : Composite} {output next : Option String}
    (composite : a.composite? x = some k) (h : behind k output = .ok (y, next)) : ∃ name, a.child? x name = some y := by
  unfold behind at h
  dsimp only at h
  split at h
  · cases h
  · split at h
    · cases h
    · next hy =>
      cases h
      obtain ⟨name, -, child⟩ := Option.bind_eq_some_iff.1 hy
      exact ⟨name, (child?_of_composite? composite name).trans child⟩

/-- What stands behind an output of a part stands below it. -/
theorem below_of_behind {a : Assembly} {x y : PartId} {output : Option String} (h : StandsBehind a x output y) :
    Below a x y := by
  cases h with
  | leaf => exact .refl
  | child composite found below =>
      obtain ⟨name, child⟩ := child?_of_behind composite found
      exact below_trans (.child .refl child) below

/-- The node behind an output of a part is held by a leaf that stands there. -/
theorem holds_of_outputHandle? {a : Assembly} {fuel : Nat} {x : PartId} {output : Option String} {h : Handle}
    (hh : a.outputHandle? fuel x output = some (.ok h)) : ∃ y, StandsBehind a x output y ∧ Holds a y h := by
  induction fuel generalizing x output with
  | zero => cases hh
  | succ fuel ih =>
      unfold outputHandle? at hh
      split at hh
      case h_1 => cases hh
      case h_2 l hl =>
        refine ⟨x, .leaf (leaf?_eq_some.2 hl), ?_⟩
        rw [Holds, leaf?_eq_some.2 hl]
        unfold leafHandle at hh
        cases held : l.hold.handle? with
        | none =>
            rw [held] at hh
            cases hh
        | some g =>
            rw [held] at hh
            cases hh
            exact held
      case h_3 k hk =>
        split at hh
        · cases hh
        · next child next hb =>
          obtain ⟨y, hy, holds⟩ := ih hh
          exact ⟨y, .child (composite?_eq_some.2 hk) hb (below_of_behind hy), holds⟩

theorem Binds.up {x y : PartId} {b : Binding} (h : Binds r y b c c') (hxy : Below c.assembly x y) :
    Binds r x b c c' := by
  induction h with
  | refl => exact .refl
  | remark _ margin text ih => exact ih.remark margin text
  | leaf before below leaf binds ih =>
      exact ih.leaf (below_trans (before.rebinds.below.2 hxy) below) leaf binds

/-! ## Binding -/

theorem after_forM_remark {α : Type} {f : α → Remark} {l : List α} {x : PartId} {b : Binding} :
    After (l.forM fun a => remark (f a)) E c fun _ c' => Binds r x b c c' := by
  refine after_forM (I := fun c' => Binds r x b c c') (fun a _ c₁ h₁ => ?_) .refl
  rw [after_remark]
  exact h₁.remark _ _

/-- What each of several attempts keeps, all of them keep, even after errors. -/
theorem after_forAll {α : Type} {f : α → Build σ (Result Unit)} {l : List α} {I : Context σ → Prop}
    (step : ∀ a ∈ l, ∀ c, I c → After (f a) E c fun _ c' => I c') {c : Context σ} (hc : I c) :
    After (forAll f l) E c fun _ c' => I c' := by
  induction l generalizing c with
  | nil => exact after_pure.2 hc
  | cons a l ih =>
      rw [forAll, after_bind]
      refine (step a List.mem_cons_self c hc).mono ?_
      intro first c₁ h₁
      rw [after_bind]
      refine (ih (fun a ha => step a (List.mem_cons_of_mem _ ha)) h₁).mono ?_
      intro rest c₂ h₂
      cases first <;> exact after_pure.2 h₂

/-- A binding goes down to leaves below the part. -/
theorem after_bindPart {fuel : Nat} {x : PartId} {i : Input} {b : Binding} :
    After (bindPart fuel x i b) E c fun _ c' => Binds E.renderer x b c c' := by
  induction fuel generalizing x i c with
  | zero => exact after_outOfFuel
  | succ fuel ih =>
      rw [bindPart, after_bind, after_assembly]
      split
      · exact after_pure.2 .refl
      · next l hl =>
        exact after_bindLeaf.mono fun _ _ h => Binds.refl.leaf .refl (leaf?_eq_some.2 hl) h
      · next k hk =>
        split
        · exact after_pure.2 .refl
        · next sockets _ =>
          rw [after_bind]
          have remarks : After (sockets.forM fun s => remark (.socket s.child s.input.name)) E c
              fun _ c' => Binds E.renderer x b c c' := after_forM_remark
          refine remarks.mono fun _ c₁ h₁ => after_forAll (fun t ht c₂ h₂ => ?_) h₁
          obtain ⟨s, -, hs⟩ := List.mem_filterMap.1 ht
          obtain ⟨y, hy, rfl⟩ := Option.map_eq_some_iff.1 hs
          rw [← child?_of_composite? (composite?_eq_some.2 hk)] at hy
          exact ih.mono fun _ c₃ h₃ => h₂.trans (h₃.up (h₂.rebinds.below.2 (.child .refl hy)))

theorem after_bindInput {x : PartId} {i : Input} {b : Binding} :
    After (bindInput x i b) E c fun _ c' => Binds E.renderer x b c c' := by
  rw [bindInput, after_bind]
  intro fuel c₁ hf
  cases hf
  exact after_bindPart

/-- What is bound to a leaf is bound to it at once. -/
theorem bindInput_of_leaf {x : PartId} {i : Input} {l : Leaf} (leaf : c.assembly.leaf? x = some l) (b : Binding) :
    bindInput x i b E c = bindLeaf x l i b E c := by
  have fuel : (walkFuel : Build σ Nat) E c = .ok (c.assembly.size + 1, c) := rfl
  rw [bindInput, bind_apply _ fuel, bindPart, bind_apply _ assembly_apply, leaf?_eq_some.1 leaf]

theorem after_outputHandle {x : PartId} {output : Option String} :
    After (outputHandle x output) E c fun res c' =>
      c' = c ∧ ∀ h, res = .ok h → ∃ y, StandsBehind c.assembly x output y ∧ Holds c.assembly y h := by
  rw [outputHandle, after_bind, after_assembly, after_bind]
  intro fuel c₁ hf
  cases hf
  rw [after_ofOption]
  rintro res hres
  exact ⟨rfl, fun h hok => holds_of_outputHandle? (hres.trans (congrArg some hok))⟩

/-- A connection passes on what stands behind the output, between its marks. -/
theorem passes_connect {x y : PartId} {output : Option String} {i : Input} :
    After (connect x output y i) E c fun res c' => ∃ c₁, c' = c₁.edit (.ended (.connection x output y i) res.isOk) ∧
      Passes E.renderer x output y (c.edit (.began (.connection x output y i))) c₁ := by
  rw [connect, after_asTask, after_andThen]
  refine after_outputHandle.mono ?_
  rintro res c₁ ⟨rfl, held⟩
  refine ⟨?_, fun e _ => ⟨_, rfl, .nothing⟩⟩
  rintro h rfl
  obtain ⟨z, behind, holds⟩ := held h rfl
  exact after_bindInput.mono fun _ c₂ binds => ⟨c₂, rfl, .handle behind holds binds⟩

theorem after_connect {x y : PartId} {output : Option String} {i : Input} :
    After (connect x output y i) E c fun res c' => Connects E.renderer x y res.isOk c c' := by
  refine passes_connect.mono ?_
  rintro res _ ⟨c₁, rfl, passes⟩
  exact .passes passes

/-- A binding ends in the same ways at any place. -/
theorem Binds.of_eq {x : PartId} {i : Input} {b : Binding} {p : Place} {res : Result Unit}
    (call : bindInput x i b (W.at p) c = .ok (res, c')) : Binds W.renderer x b c c' :=
  (after_bindInput (E := W.at p)).of_eq call

theorem Connects.of_eq {x y : PartId} {output : Option String} {i : Input} {p : Place} {res : Result Unit}
    (call : connect x output y i (W.at p) c = .ok (res, c')) : Connects W.renderer x y res.isOk c c' :=
  (after_connect (E := W.at p)).of_eq call

/-- A child is connected to another unless a cycle would arise in their composite. -/
theorem after_connectChildren {id x y : PartId} {s : Nat} {e : Edge} {output : Option String} {i : Input}
    {k : Composite} {p : Place} (composite : c.assembly.composite? id = some k) (producer : Given id 0 c e.producer x)
    (consumer : Given id s c e.consumer y) :
    After (connectChildren id e x output y i) (W.at p) c fun _ c' => Run W .giving id s c c' := by
  refine connects_connectChildren.mono fun res c₁ connects => ?_
  cases connects with
  | cycle => exact .refl _ _ _ _
  | failed free call =>
      exact .insideFailed composite producer consumer (free k composite) (.of_eq call)
  | made free call =>
      exact .inside composite producer consumer (free k composite) (.of_eq call)

end MaterialGraph.Build
