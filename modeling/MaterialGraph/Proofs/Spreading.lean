import MaterialGraph.Proofs.Frame

/-!
# How a binding spreads

To bind something to an input of a part binds it to every input that is reached from there, and to nothing else.

* `Means` : what a binding puts into a renderer node.
* `Spreads` : leaves are bound, one after the other, at inputs that are reached.
* `Shown`, `Pervades` : a value is bound at an input of a mapped leaf, and at all such inputs that are reached.
* `after_bindInput_pervades` : what has been bound pervades what is reached, even if other inputs reject it.
-/

namespace MaterialGraph

set_option autoImplicit false

open Build Assembly Number

variable {σ : Type} {r : Renderer σ} {x y z : PartId} {i j k : Input} {b : Binding}

/-! ## Values -/

/-- The four floats that a text stands for as a value of a type. -/
def Literal.floats? (value type : String) : Option Float4 := (Literal.parse value type).toOption.bind Literal.toFloat4

theorem Build.float4Of_eq_ok {value type : String} {e : LoadError} {v : Float4} :
    float4Of value type e = .ok v ↔ Literal.floats? value type = some v := by
  unfold float4Of Literal.floats?
  cases Literal.parse value type with
  | error e => simp [Except.toOption]
  | ok l =>
      simp only [Except.toOption, Option.bind_some]
      cases l.toFloat4 <;> simp

/-- What a binding puts into a renderer node. -/
inductive Means : Binding → Bound → Prop
  | node (h : Handle) : Means (.node h) (.node h)
  | literal {value type : String} {v : Float4} (floats : Literal.floats? value type = some v) :
      Means (.literal value type) (.floats v)

theorem Means.unique {v w : Bound} (hv : Means b v) (hw : Means b w) : v = w := by
  cases hv with
  | node => cases hw; rfl
  | literal floats =>
      cases hw with
      | literal floats' => rw [Option.some.inj (floats.symm.trans floats')]

/-- A binding has been made: that of a node can be refused, that of a literal cannot. -/
def Binding.Made (b : Binding) (res : Result Unit) : Prop := (∃ h, b = .node h) → res = .ok ()

namespace Build

/-! ## Leaf after leaf -/

/-- Leaves are bound at inputs that are reached. -/
inductive Spreads (E : Env σ) (x : PartId) (i : Input) (b : Binding) (c : Context σ) : Context σ → Prop
  | refl : Spreads E x i b c c
  | remark {c₁ : Context σ} (before : Spreads E x i b c c₁) (margin : Margin) (text : Remark) :
      Spreads E x i b c (c₁.push (.remarked margin text))
  | leaf {c₁ c₂ : Context σ} {y : PartId} {j : Input} {l : Leaf} {res : Result Unit} (before : Spreads E x i b c c₁)
      (reaches : c.assembly.Reaches x i y j) (leaf : c₁.assembly.leaf? y = some l)
      (binds : bindLeaf y l j b E c₁ = .ok (res, c₂)) : Spreads E x i b c c₂

namespace Spreads

variable {E : Env σ} {c c₁ c' : Context σ}

theorem binds (h : Spreads E x i b c c') : Binds E.renderer x b c c' := by
  induction h with
  | refl => exact .refl
  | remark _ margin text ih => exact ih.remark margin text
  | leaf _ reaches leaf binds ih =>
      exact ih.leaf (ih.rebinds.below.2 reaches.below) leaf (after_bindLeaf.of_eq binds)

theorem composite (h : Spreads E x i b c c') (z : PartId) : c'.assembly.composite? z = c.assembly.composite? z :=
  h.binds.rebinds.composite z

theorem trans (h₁ : Spreads E x i b c c₁) (h₂ : Spreads E x i b c₁ c') : Spreads E x i b c c' := by
  induction h₂ with
  | refl => exact h₁
  | remark _ margin text ih => exact ih.remark margin text
  | leaf _ reaches leaf binds ih => exact ih.leaf (reaches.congr fun z => (h₁.composite z).symm) leaf binds

theorem up (passes : c.assembly.PassesOn (x, i) (y, j)) (h : Spreads E y j b c c') : Spreads E x i b c c' := by
  induction h with
  | refl => exact .refl
  | remark _ margin text ih => exact ih.remark margin text
  | leaf _ reaches leaf binds ih => exact ih.leaf (reaches.head passes) leaf binds

end Spreads

/-- A binding spreads from a part to inputs that are reached from there. -/
theorem after_bindPart_spreads {E : Env σ} {c : Context σ} {fuel : Nat} :
    After (bindPart fuel x i b) E c fun _ c' => Spreads E x i b c c' := by
  induction fuel generalizing x i c with
  | zero => exact after_outOfFuel
  | succ fuel ih =>
      rw [bindPart, after_bind, after_assembly]
      split
      · exact after_pure.2 .refl
      · next l hl => exact fun res c' binds => Spreads.refl.leaf .refl (leaf?_eq_some.2 hl) binds
      · next k hk =>
        split
        · exact after_pure.2 .refl
        · next sockets opened =>
          have composite := composite?_eq_some.2 hk
          rw [after_bind]
          have remarks : After (sockets.forM fun s => remark (.socket s.child s.input.name)) E c
              fun _ c' => Spreads E x i b c c' :=
            after_forM (fun s _ c₁ h₁ => after_remark.2 (h₁.remark _ _)) .refl
          refine remarks.mono fun _ c₁ h₁ => after_forAll (fun t ht c₂ h₂ => ?_) h₁
          obtain ⟨s, mem, hs⟩ := List.mem_filterMap.1 ht
          obtain ⟨y, child, rfl⟩ := Option.map_eq_some_iff.1 hs
          refine ih.mono fun _ c₃ h₃ => h₂.trans (.up ?_ h₃)
          exact .socket ((h₂.composite x).trans composite) opened mem child

end Build

/-! ## Mapped leaves -/

/-- Where an input belongs to a mapped leaf, its node has a value under the key of the input. -/
def Shown (c : Context Recorder) (y : PartId) (j : Input) (v : Bound) : Prop :=
  ∀ l m key, c.assembly.leaf? y = some l → l.role = .mapped m → m.key? j.name = some key →
    ∃ h n, l.hold = .owned h ∧ c.system.node? h = some n ∧ n.bound key = some v

/-- A value is bound at every input that is reached, as far as these inputs belong to mapped leaves. -/
def Pervades (c : Context Recorder) (x : PartId) (i : Input) (v : Bound) : Prop :=
  ∀ y j, c.assembly.Reaches x i y j → Shown c y j v

namespace Build

section

variable {E : Env Recorder} {s : Recorder} {c c' : Context Recorder} {l : Leaf} {m : Mapping} {h : Handle}
  {n : RecordedNode}

/-- How it can end to bind an input of a mapped leaf: nothing happens, or its value is bound. -/
inductive Attempt (m : Mapping) (j : Input) (b : Binding) (h : Handle) (n : RecordedNode) (res : Result Unit)
    (c' : Context Recorder) : Prop
  | refused (node : c'.system.node? h = some n) (failed : ∀ key v, m.key? j.name = some key → Means b v → ¬ b.Made res)
  | bound {key : InputKey} {v : Bound} (known : m.key? j.name = some key) (means : Means b v)
      (node : c'.system.node? h = some (n.bind key v))

theorem after_bindNative_attempt {key : InputKey} {v : Bound} (recording : E.renderer = Recorder.renderer)
    (live : c.system.node? h = some n) (known : m.key? j.name = some key) (means : Means b v) :
    After (bindNative h key v) E c (Attempt m j b h n) := by
  rw [bindNative, after_bind, after_act, recording]
  split
  · next reply => exact after_pure.2 (.bound known means (Recorder.node?_bind_ok reply live))
  · next e reply =>
    change (Recorder.act (.bind h key v) c.system).1 = .error e at reply
    cases means with
    | node g =>
        refine after_pure.2 (.refused ?_ fun _ _ _ _ made => by cases made ⟨g, rfl⟩)
        change (Recorder.act (.bind h key (.node g)) c.system).2.node? h = some n
        rw [Recorder.act_bind] at reply ⊢
        split at reply
        · next accepts =>
          rw [Recorder.modify, live] at reply
          cases reply
        · next accepts =>
          rw [if_neg accepts]
          exact live
    | @literal _ _ v =>
        -- a live node takes any four floats
        have accepts : c.system.accepts (.floats v) = true := rfl
        rw [Recorder.act_bind, if_pos accepts, Recorder.modify, live] at reply
        cases reply

theorem bindLeaf_of_mapped {σ : Type} {l : Leaf} {m : Mapping} (role : l.role = .mapped m) (j : Input) (b : Binding) :
    (bindLeaf y l j b : Build σ (Result Unit)) = bindMapped l m j b := by
  unfold bindLeaf
  rw [role]

theorem after_bindLeaf_attempt (recording : E.renderer = Recorder.renderer) (role : l.role = .mapped m)
    (own : l.hold = .owned h) (live : c.system.node? h = some n) :
    After (bindLeaf y l j b) E c (Attempt m j b h n) := by
  rw [bindLeaf_of_mapped role, bindMapped]
  split
  · next unknown =>
    refine after_pure.2 (.refused live fun key v known => ?_)
    rw [unknown] at known
    cases known
  · next key known =>
    rw [leafHandle, own]
    dsimp only [Hold.handle?]
    cases b with
    | node g => exact after_bindNative_attempt recording live known (.node g)
    | literal value type =>
        dsimp only
        split
        · next e failed =>
          refine after_pure.2 (.refused live fun key v _ means => ?_)
          cases means with
          | literal floats =>
              rw [float4Of_eq_ok.2 floats] at failed
              cases failed
        · next v parsed => exact after_bindNative_attempt recording live known (.literal (float4Of_eq_ok.1 parsed))

/-- A child that does not forward a node has a live one of its own. -/
theorem live_of_native {id : PartId} {name : String} (keeps : Keeps s c) (equipped : Equipped c.assembly)
    (child : c.assembly.child? id name = some y) (leaf : c.assembly.leaf? y = some l) (native : Forwards l.role = false) :
    ∃ h n, l.hold = .owned h ∧ c.system.node? h = some n := by
  obtain ⟨h, own⟩ := equipped y l leaf native
  obtain ⟨k, composite, child⟩ := Option.bind_eq_some_iff.1 child
  obtain ⟨node, -, follows⟩ := keeps.now.child composite child leaf
  obtain ⟨sig, -, n, live, -⟩ := follows.shows (h := h) (by rw [own]; rfl)
  exact ⟨h, n, own, live⟩

/-- To bind an input of a leaf puts the value there, and takes the place of no other value, unless the other stands
under the same key. -/
theorem after_bindLeaf_shown (recording : E.renderer = Recorder.renderer) (keeps : Keeps s c)
    (equipped : Equipped c.assembly) (child : ∃ id name, c.assembly.child? id name = some y)
    (leaf : c.assembly.leaf? y = some l) :
    After (bindLeaf y l j b) E c fun res c' =>
      (∀ v, Means b v → b.Made res → Shown c' y j v) ∧
        ∀ z k v, Shown c z k v → (z = y → ∀ m key, l.role = .mapped m → m.key? j.name = some key →
          m.key? k.name = some key → Means b v) → Shown c' z k v := by
  intro res c' built
  have binds : BindsLeaf Recorder.renderer y l b c res c' := recording ▸ after_bindLeaf.of_eq built
  obtain ⟨id, name, child⟩ := child
  constructor
  · intro v means made l' m key there role known
    obtain rfl := (binds.endures leaf).mapped leaf there role
    obtain ⟨h, n, own, live⟩ := live_of_native keeps equipped child leaf (by rw [role]; rfl)
    cases (after_bindLeaf_attempt (j := j) recording role own live).of_eq built with
    | refused _ failed => exact (failed key v known means made).elim
    | bound known' means' node =>
        cases known.symm.trans known'
        cases means.unique means'
        exact ⟨h, _, own, node, by rw [RecordedNode.bound_bind, if_pos rfl]⟩
  · intro z k v shown same l' m key there role known
    by_cases hz : z = y
    · subst hz
      obtain rfl := (binds.endures leaf).mapped leaf there role
      obtain ⟨h, n, own, live, bound⟩ := shown l' m key leaf role known
      cases (after_bindLeaf_attempt (j := j) recording role own live).of_eq built with
      | refused node => exact ⟨h, n, own, node, bound⟩
      | @bound key' v' known' means' node =>
          refine ⟨h, _, own, node, ?_⟩
          rw [RecordedNode.bound_bind]
          split
          · next hk =>
            rw [means'.unique (same rfl m key' role known' (hk ▸ known))]
          · exact bound
    · rw [(binds.rebinds leaf).other z hz] at there
      obtain ⟨h, n, own, live, bound⟩ := shown l' m key there role known
      have untouched := binds.node?_eq (h := h) keeps leaf there (by rw [own]; rfl) hz
      exact ⟨h, n, own, untouched.trans live, bound⟩

theorem Spreads.leaf_mapped {y : PartId} (h : Spreads E x i b c c') (there : c'.assembly.leaf? y = some l)
    (role : l.role = .mapped m) : c.assembly.leaf? y = some l := by
  have before : (c.assembly.leaf? y).isSome := by
    rw [← h.binds.rebinds.leaf, there]
    rfl
  obtain ⟨l₀, before⟩ := Option.isSome_iff_exists.1 before
  rw [before, h.binds.endures.mapped before there role]

/-- What spreads takes the place of no other value, unless the other stands under the same key. -/
theorem Spreads.shown (recording : E.renderer = Recorder.renderer) (spreads : Spreads E x i b c c') (keeps : Keeps s c)
    (equipped : Equipped c.assembly) (child : c.assembly.IsChild x) {v : Bound} (shown : Shown c z k v)
    (same : ∀ j l m key, c.assembly.Reaches x i z j → c.assembly.leaf? z = some l → l.role = .mapped m →
      m.key? j.name = some key → m.key? k.name = some key → Means b v) : Shown c' z k v := by
  induction spreads with
  | refl => exact shown
  | remark _ _ _ ih => exact ih
  | @leaf c₁ c₂ y j l res before reaches leaf built ih =>
      obtain ⟨id, name, there⟩ := isChild_of_below child reaches.below
      have there : ∃ id name, c₁.assembly.child? id name = some y :=
        ⟨id, name, (child?_congr (before.composite id) name).trans there⟩
      have binds := recording ▸ before.binds
      have effect :=
        after_bindLeaf_shown (b := b) (j := j) recording (binds.keeps keeps) (binds.equipped equipped) there leaf
      refine (effect.of_eq built).2 z k v ih ?_
      rintro rfl m key role known known'
      exact same j l m key reaches (before.leaf_mapped leaf role) role known known'

/-- Where no composite is, nothing is passed on. -/
theorem reaches_self {a : Assembly} (alone : ∀ q, ¬ a.PassesOn (x, i) q) (reaches : a.Reaches x i y j) :
    y = x ∧ j = i := by
  rcases Relation.ReflTransGen.cases_head reaches with same | ⟨q, step, -⟩
  · obtain ⟨rfl, rfl⟩ := Prod.mk.inj same
    exact ⟨rfl, rfl⟩
  · exact (alone q step).elim

theorem pervades_of_leaf {v : Bound} (leaf : ∀ k, c.assembly.composite? x ≠ some k) (shown : Shown c x i v) :
    Pervades c x i v := by
  intro y j reaches
  have alone : ∀ q, ¬ c.assembly.PassesOn (x, i) q := by
    rintro q ⟨composite, -⟩
    exact leaf _ composite
  obtain ⟨rfl, rfl⟩ := reaches_self alone reaches
  exact shown

theorem shown_of_absent {v : Bound} (absent : c.assembly.leaf? x = none) : Shown c x i v := by
  intro l m key there
  rw [absent] at there
  cases there

/-- Several attempts lead to what each of them leads to, as long as none undoes another. -/
theorem after_forAll_made {α : Type} {f : α → Build Recorder (Result Unit)} {as : List α} {I : Context Recorder → Prop}
    {Q : α → Context Recorder → Prop}
    (step : ∀ a ∈ as, ∀ c, I c → After (f a) E c fun res c' => I c' ∧ (b.Made res → Q a c'))
    (stays : ∀ a ∈ as, ∀ a' c, I c → Q a' c → After (f a) E c fun _ c' => Q a' c') (hc : I c) :
    After (forAll f as) E c fun res c' => I c' ∧ (b.Made res → ∀ a ∈ as, Q a c') := by
  induction as generalizing c with
  | nil => exact after_pure.2 ⟨hc, fun _ => List.forall_mem_nil _⟩
  | cons a as ih =>
      rw [forAll, after_bind]
      refine (step a List.mem_cons_self c hc).mono ?_
      rintro first c₁ ⟨h₁, done⟩
      have rest := ih (fun a ha => step a (List.mem_cons_of_mem _ ha)) (fun a ha => stays a (List.mem_cons_of_mem _ ha)) h₁
      have first_stays : Q a c₁ → After (forAll f as) E c₁ fun _ c' => I c' ∧ Q a c' := fun hq =>
        after_forAll (fun a' ha c kept =>
          ((step a' (List.mem_cons_of_mem _ ha) c kept.1).and
            (stays a' (List.mem_cons_of_mem _ ha) a c kept.1 kept.2)).mono fun _ _ h => ⟨h.1.1, h.2⟩) ⟨h₁, hq⟩
      rw [after_bind]
      intro res c₂ built
      obtain ⟨h₂, later⟩ := rest.of_eq built
      cases first with
      | error e =>
          refine after_pure.2 ⟨h₂, fun made => ?_⟩
          have lenient : ∀ res, b.Made res := fun _ node => by cases made node
          exact List.forall_mem_cons.2 ⟨((first_stays (done (lenient _))).of_eq built).2, later (lenient _)⟩
      | ok =>
          refine after_pure.2 ⟨h₂, fun made => ?_⟩
          exact List.forall_mem_cons.2 ⟨((first_stays (done fun _ => rfl)).of_eq built).2, later made⟩

/-- The targets of a composite are what it passes a binding on to. -/
theorem mem_targets {a : Assembly} {k : Composite} {sockets : List Socket} {t : PartId × Input}
    (composite : a.composite? x = some k) (opened : k.socketsFor? i = some sockets) :
    t ∈ targets k sockets ↔ a.PassesOn (x, i) t := by
  constructor
  · intro ht
    obtain ⟨s, mem, hs⟩ := List.mem_filterMap.1 ht
    obtain ⟨y, child, rfl⟩ := Option.map_eq_some_iff.1 hs
    exact .socket composite opened mem child
  · rintro ⟨composite', opened', mem, child⟩
    cases composite.symm.trans composite'
    cases opened.symm.trans opened'
    exact List.mem_filterMap.2 ⟨_, mem, by rw [child]; rfl⟩

/-- What has been bound to an input of a child pervades all that is reached from there. -/
theorem after_bindPart_pervades {v : Bound} {fuel : Nat} (recording : E.renderer = Recorder.renderer) (keeps : Keeps s c)
    (equipped : Equipped c.assembly) (child : c.assembly.IsChild x) (means : Means b v) :
    After (bindPart fuel x i b) E c fun res c' => b.Made res → Pervades c' x i v := by
  induction fuel generalizing x i c with
  | zero => exact after_outOfFuel
  | succ fuel ih =>
      rw [bindPart, after_bind, after_assembly]
      split
      · next absent =>
        refine after_pure.2 fun _ => pervades_of_leaf (fun k composite => ?_) (shown_of_absent ?_)
        · rw [composite?_eq_some, absent] at composite
          cases composite
        · rw [leaf?, absent]
      · next l hl =>
        have leaf := leaf?_eq_some.2 hl
        intro res c' built made
        refine pervades_of_leaf (fun k composite => ?_) ?_
        · have binds := after_bindLeaf.of_eq built
          rw [(binds.rebinds leaf).composite, composite?_eq_some, hl] at composite
          cases composite
        · exact ((after_bindLeaf_shown recording keeps equipped child leaf).of_eq built).1 v means made
      · next k hk =>
        have composite := composite?_eq_some.2 hk
        have absent : c.assembly.leaf? x = none := leaf?_eq_none_of_composite? composite
        split
        · next closed =>
          refine after_pure.2 fun _ y j reaches => ?_
          have alone : ∀ q, ¬ c.assembly.PassesOn (x, i) q := by
            rintro q ⟨composite', opened, -⟩
            cases composite.symm.trans composite'
            rw [closed] at opened
            cases opened
          obtain ⟨rfl, rfl⟩ := reaches_self alone reaches
          exact shown_of_absent absent
        · next sockets opened =>
          rw [after_bind]
          have remarks : After (sockets.forM fun s => remark (.socket s.child s.input.name)) E c
              fun _ c' => Spreads E x i b c c' :=
            after_forM (fun s _ c₁ h₁ => after_remark.2 (h₁.remark _ _)) .refl
          have recorded {c₂ : Context Recorder} (h : Spreads E x i b c c₂) : Binds Recorder.renderer x b c c₂ :=
            recording ▸ h.binds
          refine remarks.mono fun _ c₁ h₁ => (after_forAll_made (b := b) (I := fun c' => Spreads E x i b c c')
            (Q := fun t c' => Pervades c' t.1 t.2 v) (fun t ht c₂ h₂ => ?_) (fun t ht t' c₂ h₂ before => ?_) h₁).mono ?_
          · have passes := (mem_targets ((h₂.composite x).trans composite) opened).1 ht
            have there : c₂.assembly.IsChild t.1 := ⟨_, passes.child⟩
            have pervades := ih (i := t.2) ((recorded h₂).keeps keeps) ((recorded h₂).equipped equipped) there
            exact (after_bindPart_spreads.mono fun _ _ h₃ => h₂.trans (.up passes h₃)).and pervades
          · have passes := (mem_targets ((h₂.composite x).trans composite) opened).1 ht
            have there : c₂.assembly.IsChild t.1 := ⟨_, passes.child⟩
            refine after_bindPart_spreads.mono fun _ c₃ h₃ y j reaches => ?_
            have shown := before y j (reaches.congr fun z => (h₃.composite z).symm)
            exact h₃.shown recording ((recorded h₂).keeps keeps) ((recorded h₂).equipped equipped) there shown
              fun _ _ _ _ _ _ _ _ _ => means
          · rintro res c₂ ⟨h₂, all⟩ made y j reaches
            rcases Relation.ReflTransGen.cases_head reaches with same | ⟨t, step, rest⟩
            · obtain ⟨rfl, rfl⟩ := Prod.mk.inj same
              exact shown_of_absent (leaf?_eq_none_of_composite? ((h₂.composite x).trans composite))
            · exact all made t ((mem_targets ((h₂.composite x).trans composite) opened).2 step) y j rest

/-- To bind something to an input of a child spreads from there, and when it is done, it pervades what is reached. -/
theorem after_bindInput_pervades (recording : E.renderer = Recorder.renderer) (keeps : Keeps s c)
    (equipped : Equipped c.assembly) (child : c.assembly.IsChild x) :
    After (bindInput x i b) E c fun res c' =>
      Spreads E x i b c c' ∧ ∀ v, Means b v → b.Made res → Pervades c' x i v := by
  rw [bindInput, after_bind]
  rintro fuel c₁ ⟨⟩
  refine after_bindPart_spreads.and fun res c' built v means => ?_
  exact (after_bindPart_pervades recording keeps equipped child means).of_eq built

end

end Build

end MaterialGraph
