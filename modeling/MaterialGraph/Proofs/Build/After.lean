import MaterialGraph.Build.Basic

/-!
# What holds after a build

* `After m E c Q` : whatever the build `m` returns from the context `c`, it satisfies `Q` together with the context it
  leaves; nothing is said of a build that returns nothing.
* `Returns m E c` : the build `m` returns something from the context `c`; `Total m` : it does so from any.
* `Breaks m E c P` : if the build `m` breaks off instead, the context that it has reached satisfies `P`.
* `after_*`, `returns_*`, `total_*`, `breaks_*` : how these go through the ways builds are put together, one lemma for
  each way.
* `*_apply` : what a build comes to, once its first step is known.
* `Context.push`, `Context.edit`, `Context.created`, `Context.acted` : the only steps that a context takes.
-/

namespace MaterialGraph

set_option autoImplicit false

variable {σ α β : Type}

/-! ## The steps of a context -/

namespace Context

def push (c : Context σ) (e : Event) : Context σ := { c with journal := e :: c.journal }

def edit (c : Context σ) (e : Edit) : Context σ :=
  { c with assembly := c.assembly.apply e, journal := .edited e :: c.journal }

def created (r : Renderer σ) (type : NodeType) (c : Context σ) : Context σ :=
  { c with system := (r.create type c.system).2, journal := .created type (r.create type c.system).1 :: c.journal }

def acted (r : Renderer σ) (a : Action) (c : Context σ) : Context σ :=
  { c with system := (r.act a c.system).2, journal := .acted a (r.act a c.system).1 :: c.journal }

variable (c : Context σ) (r : Renderer σ)

@[simp] theorem push_assembly (e : Event) : (c.push e).assembly = c.assembly := rfl

@[simp] theorem push_system (e : Event) : (c.push e).system = c.system := rfl

@[simp] theorem push_journal (e : Event) : (c.push e).journal = e :: c.journal := rfl

@[simp] theorem edit_assembly (e : Edit) : (c.edit e).assembly = c.assembly.apply e := rfl

@[simp] theorem edit_system (e : Edit) : (c.edit e).system = c.system := rfl

@[simp] theorem edit_journal (e : Edit) : (c.edit e).journal = .edited e :: c.journal := rfl

@[simp] theorem created_assembly (type : NodeType) : (c.created r type).assembly = c.assembly := rfl

@[simp] theorem created_system (type : NodeType) : (c.created r type).system = (r.create type c.system).2 := rfl

@[simp] theorem created_journal (type : NodeType) :
    (c.created r type).journal = .created type (r.create type c.system).1 :: c.journal := rfl

@[simp] theorem acted_assembly (a : Action) : (c.acted r a).assembly = c.assembly := rfl

@[simp] theorem acted_system (a : Action) : (c.acted r a).system = (r.act a c.system).2 := rfl

@[simp] theorem acted_journal (a : Action) :
    (c.acted r a).journal = .acted a (r.act a c.system).1 :: c.journal := rfl

end Context

def Env.at (W : Env σ) (p : Place) : Env σ := { W with place := p }

namespace Build

/-- Whatever a build returns satisfies `Q` together with the context that it leaves. -/
def After (m : Build σ α) (E : Env σ) (c : Context σ) (Q : α → Context σ → Prop) : Prop :=
  ∀ a c', m E c = .ok (a, c') → Q a c'

def Returns (m : Build σ α) (E : Env σ) (c : Context σ) : Prop := (m E c).isOk

def Total (m : Build σ α) : Prop := ∀ E c, Returns m E c

/-- If a build breaks off, it has reached a context that satisfies `P`. -/
def Breaks (m : Build σ α) (E : Env σ) (c : Context σ) (P : Context σ → Prop) : Prop := ∀ c', m E c = .error c' → P c'

variable {E W : Env σ} {c : Context σ} {p : Place} {Q R : α → Context σ → Prop} {P : Context σ → Prop}

theorem After.of_eq {m : Build σ α} {a : α} {c' : Context σ} (h : After m E c Q) (hm : m E c = .ok (a, c')) : Q a c' :=
  h a c' hm

theorem After.mono {m : Build σ α} (h : After m E c Q) (hQ : ∀ a c', Q a c' → R a c') : After m E c R :=
  fun a c' hm => hQ a c' (h a c' hm)

theorem After.and {m : Build σ α} (hQ : After m E c Q) (hR : After m E c R) :
    After m E c fun a c' => Q a c' ∧ R a c' :=
  fun a c' hm => ⟨hQ a c' hm, hR a c' hm⟩

/-! ## Ways to put builds together -/

theorem after_pure {a : α} : After (pure a : Build σ α) E c Q ↔ Q a c := by
  constructor
  · intro h
    exact h a c rfl
  · rintro h b c' ⟨⟩
    exact h

theorem bind_eq_ok {m : Build σ α} {f : α → Build σ β} {b : β} {c₂ : Context σ} :
    (m >>= f) E c = .ok (b, c₂) ↔ ∃ a c₁, m E c = .ok (a, c₁) ∧ f a E c₁ = .ok (b, c₂) := by
  change Except.bind (m E c) _ = _ ↔ _
  cases m E c with
  | error c₁ => exact ⟨nofun, nofun⟩
  | ok x =>
      constructor
      · exact fun h => ⟨x.1, x.2, rfl, h⟩
      · rintro ⟨a, c₁, ⟨⟩, h⟩
        exact h

theorem after_bind {m : Build σ α} {f : α → Build σ β} {Q : β → Context σ → Prop} :
    After (m >>= f) E c Q ↔ After m E c fun a c' => After (f a) E c' Q := by
  constructor
  · intro h a c₁ hm b c₂ hf
    refine h b c₂ ?_
    change Except.bind (m E c) _ = _
    rw [hm]
    exact hf
  · intro h b c₂ hr
    obtain ⟨a, c₁, hm, hf⟩ := bind_eq_ok.1 hr
    exact h a c₁ hm b c₂ hf

theorem after_outOfFuel : After (outOfFuel : Build σ α) E c Q := by
  rintro a c' ⟨⟩

theorem after_ofOption {a : Option α} : After (ofOption a) E c Q ↔ ∀ x, a = some x → Q x c := by
  cases a with
  | none => exact ⟨nofun, fun _ => after_outOfFuel⟩
  | some y =>
      rw [ofOption, after_pure]
      exact ⟨fun h x hx => by cases hx; exact h, fun h => h y rfl⟩

theorem after_read {Q : Env σ → Context σ → Prop} : After (read : Build σ (Env σ)) E c Q ↔ Q E c :=
  after_pure (E := E) (a := E)

theorem after_assembly {Q : Assembly → Context σ → Prop} : After assembly E c Q ↔ Q c.assembly c :=
  after_pure (E := E) (a := c.assembly)

theorem after_catalog {Q : Catalog → Context σ → Prop} : After catalog E c Q ↔ Q E.catalog c :=
  after_pure (E := E) (a := E.catalog)

theorem after_emit {e : Event} {Q : Unit → Context σ → Prop} : After (emit e) E c Q ↔ Q () (c.push e) := by
  constructor
  · intro h
    exact h () _ rfl
  · rintro h ⟨⟩ c' ⟨⟩
    exact h

theorem after_remark {r : Remark} {Q : Unit → Context σ → Prop} :
    After (remark r) E c Q ↔ Q () (c.push (.remarked E.margin r)) := by
  rw [remark, after_bind, after_read, after_emit]

theorem after_warn {w : Warning} {Q : Unit → Context σ → Prop} : After (warn w) E c Q ↔ Q () (c.push (.warned w)) :=
  after_emit

theorem after_edit {e : Edit} {Q : Unit → Context σ → Prop} : After (edit e) E c Q ↔ Q () (c.edit e) := by
  constructor
  · intro h
    exact h () _ rfl
  · rintro h ⟨⟩ c' ⟨⟩
    exact h

theorem after_create {type : NodeType} {Q : Except CallError Handle → Context σ → Prop} :
    After (create type) E c Q ↔ Q (E.renderer.create type c.system).1 (c.created E.renderer type) := by
  constructor
  · intro h
    exact h _ _ rfl
  · rintro h a c' ⟨⟩
    exact h

theorem after_act {a : Action} {Q : Except CallError Unit → Context σ → Prop} :
    After (act a) E c Q ↔ Q (E.renderer.act a c.system).1 (c.acted E.renderer a) := by
  constructor
  · intro h
    exact h _ _ rfl
  · rintro h b c' ⟨⟩
    exact h

theorem after_within {level : Level} {filePrefix : Option String} {m : Build σ α} :
    After (within level filePrefix m) E c Q ↔ After m (E.at (E.place.enter level filePrefix)) c Q :=
  Iff.rfl

theorem after_andThen {m : Build σ (Result α)} {f : α → Build σ (Result β)} {Q : Result β → Context σ → Prop} :
    After (andThen m f) E c Q ↔
      After m E c fun r c' => (∀ a, r = .ok a → After (f a) E c' Q) ∧ ∀ e, r = .error e → Q (.error e) c' := by
  rw [andThen, after_bind]
  constructor
  · intro h r c' hm
    have := h r c' hm
    cases r with
    | error e => exact ⟨nofun, fun _ he => by cases he; exact after_pure.1 this⟩
    | ok a => exact ⟨fun _ ha => by cases ha; exact this, nofun⟩
  · intro h r c' hm
    have := h r c' hm
    cases r with
    | error e => exact after_pure.2 (this.2 e rfl)
    | ok a => exact this.1 a rfl

theorem after_addPart {q : Part} {Q : PartId → Context σ → Prop} :
    After (addPart q) E c Q ↔ Q c.assembly.size (c.edit (.add q)) := by
  rw [addPart, after_bind, after_assembly, after_bind, after_edit, after_pure]

theorem after_addComposite {g : Graph} {Q : PartId → Context σ → Prop} :
    After (addComposite g) E c Q ↔ Q c.assembly.size (c.edit (.add (.composite { graph := g }))) :=
  after_addPart

theorem after_asTask {t : Task} {succeeds : α → Bool} {m : Build σ α} :
    After (asTask t succeeds m) E c Q ↔
      After m E (c.edit (.began t)) fun a c' => Q a (c'.edit (.ended t (succeeds a))) := by
  rw [asTask, after_bind, after_edit, after_bind]
  simp only [after_bind, after_edit, after_pure]

/-! ## What a build comes to -/

theorem pure_apply (a : α) : (pure a : Build σ α) E c = .ok (a, c) := rfl

theorem bind_apply {m : Build σ α} (f : α → Build σ β) {a : α} {c' : Context σ} (first : m E c = .ok (a, c')) :
    (m >>= f) E c = f a E c' := by
  change Except.bind (m E c) _ = _
  rw [first]
  rfl

theorem assembly_apply : (assembly : Build σ Assembly) E c = .ok (c.assembly, c) := rfl

theorem asTask_apply {t : Task} {succeeds : α → Bool} {m : Build σ α} {a : α} {c' : Context σ}
    (inner : m E (c.edit (.began t)) = .ok (a, c')) :
    asTask t succeeds m E c = .ok (a, c'.edit (.ended t (succeeds a))) := by
  have begun : (edit (.began t) : Build σ Unit) E c = .ok ((), c.edit (.began t)) := rfl
  rw [asTask, bind_apply _ begun, bind_apply _ inner]
  rfl

/-- A build returns what is told from its result. -/
theorem exists_of_toOption {m : Build σ α} {f : α × Context σ → β} {b : β} (told : (m E c).toOption.map f = some b) :
    ∃ a c', m E c = .ok (a, c') ∧ f (a, c') = b := by
  cases returned : m E c with
  | error =>
      rw [returned] at told
      cases told
  | ok x =>
      rw [returned] at told
      exact ⟨x.1, x.2, rfl, Option.some.inj told⟩

/-! ## Lists of builds -/

/-- What each of several builds keeps, all of them keep. -/
theorem after_mapM {I : Context σ → Prop} {f : α → Build σ β} {l : List α} {P : β → Prop}
    (step : ∀ a ∈ l, ∀ c, I c → After (f a) E c fun b c' => I c' ∧ P b) (hc : I c) :
    After (l.mapM f) E c fun bs c' => I c' ∧ ∀ b ∈ bs, P b := by
  induction l generalizing c with
  | nil =>
      rw [List.mapM_nil, after_pure]
      exact ⟨hc, nofun⟩
  | cons a l ih =>
      rw [List.mapM_cons, after_bind]
      refine (step a List.mem_cons_self c hc).mono ?_
      rintro b c₁ ⟨hc₁, hb⟩
      rw [after_bind]
      refine (ih (fun x hx => step x (List.mem_cons_of_mem a hx)) hc₁).mono ?_
      rintro bs c₂ ⟨hc₂, hbs⟩
      rw [after_pure]
      exact ⟨hc₂, List.forall_mem_cons.2 ⟨hb, hbs⟩⟩

/-- What one of several builds leads to, their list has, if all of them keep what it takes. -/
theorem after_mapM_exists {I : Context σ → Prop} {f : α → Build σ β} {l : List α} {P : β → Prop} {a : α}
    (step : ∀ a ∈ l, ∀ c, I c → After (f a) E c fun _ c' => I c') (mem : a ∈ l)
    (leads : ∀ c, I c → After (f a) E c fun b _ => P b) (hc : I c) :
    After (l.mapM f) E c fun bs _ => ∃ b ∈ bs, P b := by
  induction l generalizing c with
  | nil => cases mem
  | cons x l ih =>
      rw [List.mapM_cons, after_bind]
      rcases List.mem_cons.1 mem with rfl | mem
      · refine (leads c hc).mono fun b c₁ hb => ?_
        rw [after_bind]
        intro bs c₂ _
        exact after_pure.2 ⟨b, List.mem_cons_self, hb⟩
      · refine (step x List.mem_cons_self c hc).mono fun b c₁ hc₁ => ?_
        rw [after_bind]
        refine (ih (fun y hy => step y (List.mem_cons_of_mem x hy)) mem hc₁).mono ?_
        rintro bs c₂ ⟨b', hb', hP⟩
        exact after_pure.2 ⟨b', List.mem_cons_of_mem b hb', hP⟩

theorem after_mapM_length {f : α → Build σ β} {l : List α} :
    After (l.mapM f) E c fun bs _ => bs.length = l.length := by
  induction l generalizing c with
  | nil =>
      rw [List.mapM_nil, after_pure]
      rfl
  | cons a l ih =>
      rw [List.mapM_cons, after_bind]
      intro b c₁ _
      rw [after_bind]
      refine ih.mono fun bs c₂ hbs => ?_
      rw [after_pure, List.length_cons, List.length_cons, hbs]

theorem after_forM {I : Context σ → Prop} {f : α → Build σ Unit} {l : List α}
    (step : ∀ a ∈ l, ∀ c, I c → After (f a) E c fun _ c' => I c') (hc : I c) :
    After (l.forM f) E c fun _ c' => I c' := by
  induction l generalizing c with
  | nil =>
      exact after_pure.2 hc
  | cons a l ih =>
      rw [show (a :: l).forM f = f a >>= fun _ => l.forM f from rfl, after_bind]
      refine (step a List.mem_cons_self c hc).mono ?_
      intro _ c₁ hc₁
      exact ih (fun x hx => step x (List.mem_cons_of_mem a hx)) hc₁

theorem after_foldlM {I : β → Context σ → Prop} {f : β → α → Build σ β} {l : List α} {b : β}
    (step : ∀ a ∈ l, ∀ b c, I b c → After (f b a) E c I) (hc : I b c) :
    After (l.foldlM f b) E c I := by
  induction l generalizing b c with
  | nil =>
      rw [List.foldlM_nil, after_pure]
      exact hc
  | cons a l ih =>
      rw [List.foldlM_cons, after_bind]
      refine (step a List.mem_cons_self b c hc).mono ?_
      intro b₁ c₁ hc₁
      exact ih (fun x hx => step x (List.mem_cons_of_mem a hx)) hc₁

/-! ## Builds that return -/

theorem Returns.exists_eq {m : Build σ α} (returns : Returns m E c) : ∃ a c', m E c = .ok (a, c') := by
  unfold Returns at returns
  cases returned : m E c with
  | error =>
      rw [returned] at returns
      cases returns
  | ok x => exact ⟨x.1, x.2, rfl⟩

theorem isSome_toOption {m : Build σ α} : (m E c).toOption.isSome ↔ Returns m E c := by
  unfold Returns
  cases m E c with
  | error => exact ⟨nofun, nofun⟩
  | ok => exact ⟨fun _ => rfl, fun _ => rfl⟩

theorem returns_bind {m : Build σ α} {f : α → Build σ β} :
    Returns (m >>= f) E c ↔ Returns m E c ∧ After m E c fun a c' => Returns (f a) E c' := by
  change (Except.bind (m E c) _).isOk ↔ (m E c).isOk ∧ _
  unfold After
  cases m E c with
  | error => simp [Except.bind, Except.isOk, Except.toBool]
  | ok x =>
      constructor
      · intro h
        refine ⟨rfl, ?_⟩
        rintro a c' ⟨⟩
        exact h
      · exact fun h => h.2 _ _ rfl

theorem returns_total_bind {m : Build σ α} {f : α → Build σ β} (hm : Total m) :
    Returns (m >>= f) E c ↔ After m E c fun a c' => Returns (f a) E c' :=
  returns_bind.trans (and_iff_right (hm E c))

theorem Returns.bind {m : Build σ α} {f : α → Build σ β} (hm : Returns m E c) (after : After m E c Q)
    (hf : ∀ a c', Q a c' → Returns (f a) E c') : Returns (m >>= f) E c :=
  returns_bind.2 ⟨hm, after.mono hf⟩

theorem Returns.andThen {m : Build σ (Result α)} {f : α → Build σ (Result β)} {Q : Result α → Context σ → Prop}
    (hm : Returns m E c) (after : After m E c Q) (hf : ∀ a c', Q (.ok a) c' → Returns (f a) E c') :
    Returns (andThen m f) E c := by
  rw [Build.andThen]
  refine hm.bind after fun res c' h => ?_
  cases res with
  | error e => exact rfl
  | ok a => exact hf a c' h

theorem returns_within {level : Level} {filePrefix : Option String} {m : Build σ α} :
    Returns (within level filePrefix m) E c ↔ Returns m (E.at (E.place.enter level filePrefix)) c :=
  Iff.rfl

theorem returns_mapM {I : Context σ → Prop} {f : α → Build σ β} {l : List α}
    (step : ∀ a ∈ l, ∀ c, I c → Returns (f a) E c ∧ After (f a) E c fun _ c' => I c') (hc : I c) :
    Returns (l.mapM f) E c := by
  induction l generalizing c with
  | nil =>
      rw [List.mapM_nil]
      exact rfl
  | cons a l ih =>
      rw [List.mapM_cons]
      obtain ⟨returns, keeps⟩ := step a List.mem_cons_self c hc
      refine returns.bind keeps fun b c₁ hc₁ => ?_
      rw [returns_bind]
      exact ⟨ih (fun x hx => step x (List.mem_cons_of_mem a hx)) hc₁, fun _ _ _ => rfl⟩

theorem returns_forM {I : Context σ → Prop} {f : α → Build σ Unit} {l : List α}
    (step : ∀ a ∈ l, ∀ c, I c → Returns (f a) E c ∧ After (f a) E c fun _ c' => I c') (hc : I c) :
    Returns (l.forM f) E c := by
  induction l generalizing c with
  | nil => exact rfl
  | cons a l ih =>
      rw [show (a :: l).forM f = f a >>= fun _ => l.forM f from rfl]
      obtain ⟨returns, keeps⟩ := step a List.mem_cons_self c hc
      exact returns.bind keeps fun _ c₁ hc₁ => ih (fun x hx => step x (List.mem_cons_of_mem a hx)) hc₁

theorem returns_foldlM {I : β → Context σ → Prop} {f : β → α → Build σ β} {l : List α} {b : β}
    (step : ∀ a ∈ l, ∀ b c, I b c → Returns (f b a) E c ∧ After (f b a) E c I) (hc : I b c) :
    Returns (l.foldlM f b) E c := by
  induction l generalizing b c with
  | nil =>
      rw [List.foldlM_nil]
      exact rfl
  | cons a l ih =>
      rw [List.foldlM_cons]
      obtain ⟨returns, keeps⟩ := step a List.mem_cons_self b c hc
      exact returns.bind keeps fun b₁ c₁ hc₁ => ih (fun x hx => step x (List.mem_cons_of_mem a hx)) hc₁

theorem Total.bind {m : Build σ α} {f : α → Build σ β} (hm : Total m) (hf : ∀ a, Total (f a)) : Total (m >>= f) :=
  fun E c => returns_bind.2 ⟨hm E c, fun a c' _ => hf a E c'⟩

theorem total_pure (a : α) : Total (pure a : Build σ α) := fun _ _ => rfl

theorem total_read : Total (read : Build σ (Env σ)) := fun _ _ => rfl

theorem total_assembly : Total (assembly : Build σ Assembly) := fun _ _ => rfl

theorem total_catalog : Total (catalog : Build σ Catalog) := fun _ _ => rfl

theorem total_emit (e : Event) : Total (emit e : Build σ Unit) := fun _ _ => rfl

theorem total_remark (r : Remark) : Total (remark r : Build σ Unit) := fun _ _ => rfl

theorem total_edit (e : Edit) : Total (edit e : Build σ Unit) := fun _ _ => rfl

theorem returns_asTask {t : Task} {succeeds : α → Bool} {m : Build σ α} :
    Returns (asTask t succeeds m) E c ↔ Returns m E (c.edit (.began t)) := by
  rw [asTask, returns_total_bind (total_edit _), after_edit, returns_bind]
  exact and_iff_left fun a c₁ _ => (returns_total_bind (total_edit _)).2 (after_edit.2 rfl)

theorem total_create (type : NodeType) : Total (create type : Build σ _) := fun _ _ => rfl

theorem total_act (a : Action) : Total (act a : Build σ _) := fun _ _ => rfl

theorem total_addPart (q : Part) : Total (addPart q : Build σ PartId) := fun _ _ => rfl

theorem total_forM {f : α → Build σ Unit} (hf : ∀ a, Total (f a)) (l : List α) : Total (l.forM f) := by
  induction l with
  | nil => exact total_pure ()
  | cons a l ih =>
      rw [show (a :: l).forM f = f a >>= fun _ => l.forM f from rfl]
      exact (hf a).bind fun _ => ih

/-! ## Builds that break off -/

theorem Breaks.mono {m : Build σ α} {P' : Context σ → Prop} (h : Breaks m E c P) (hP : ∀ c', P c' → P' c') :
    Breaks m E c P' :=
  fun c' hm => hP c' (h c' hm)

theorem Returns.breaks {m : Build σ α} (returns : Returns m E c) : Breaks m E c P := by
  intro c' broken
  rw [Returns, broken] at returns
  cases returns

theorem Total.breaks {m : Build σ α} (total : Total m) : Breaks m E c P := (total E c).breaks

theorem breaks_outOfFuel : Breaks (outOfFuel : Build σ α) E c P ↔ P c := by
  constructor
  · intro h
    exact h c rfl
  · rintro h c' ⟨⟩
    exact h

theorem breaks_bind {m : Build σ α} {f : α → Build σ β} :
    Breaks (m >>= f) E c P ↔ Breaks m E c P ∧ After m E c fun a c' => Breaks (f a) E c' P := by
  have result : (m >>= f) E c = Except.bind (m E c) fun x => f x.1 E x.2 := rfl
  unfold Breaks After
  rw [result]
  cases m E c with
  | error c₁ =>
      constructor
      · intro h
        refine ⟨?_, nofun⟩
        rintro c' ⟨⟩
        exact h c₁ rfl
      · rintro ⟨h, -⟩ c' ⟨⟩
        exact h c₁ rfl
  | ok x =>
      constructor
      · intro h
        refine ⟨nofun, ?_⟩
        rintro a c₁ ⟨⟩
        exact h
      · rintro ⟨-, h⟩
        exact h x.1 x.2 rfl

theorem breaks_total_bind {m : Build σ α} {f : α → Build σ β} (hm : Total m) :
    Breaks (m >>= f) E c P ↔ After m E c fun a c' => Breaks (f a) E c' P :=
  breaks_bind.trans (and_iff_right hm.breaks)

theorem breaks_within {level : Level} {filePrefix : Option String} {m : Build σ α} :
    Breaks (within level filePrefix m) E c P ↔ Breaks m (E.at (E.place.enter level filePrefix)) c P :=
  Iff.rfl

theorem breaks_andThen {m : Build σ (Result α)} {f : α → Build σ (Result β)} :
    Breaks (andThen m f) E c P ↔ Breaks m E c P ∧ After m E c fun r c' => ∀ a, r = .ok a → Breaks (f a) E c' P := by
  rw [andThen, breaks_bind]
  refine and_congr_right fun _ => ?_
  constructor
  · rintro h r c' hm a rfl
    exact h _ c' hm
  · intro h r c' hm
    cases r with
    | error e => exact (total_pure _).breaks
    | ok a => exact h _ c' hm a rfl

theorem breaks_asTask {t : Task} {succeeds : α → Bool} {m : Build σ α} :
    Breaks (asTask t succeeds m) E c P ↔ Breaks m E (c.edit (.began t)) P := by
  rw [asTask, breaks_total_bind (total_edit _), after_edit, breaks_bind]
  exact and_iff_left fun a c₁ _ => ((total_edit _).bind fun _ => total_pure _).breaks

theorem breaks_mapM {I : Context σ → Prop} {f : α → Build σ β} {l : List α}
    (step : ∀ a ∈ l, ∀ c, I c → Breaks (f a) E c P ∧ After (f a) E c fun _ c' => I c') (hc : I c) :
    Breaks (l.mapM f) E c P := by
  induction l generalizing c with
  | nil =>
      rw [List.mapM_nil]
      exact (total_pure _).breaks
  | cons a l ih =>
      rw [List.mapM_cons, breaks_bind]
      obtain ⟨breaks, keeps⟩ := step a List.mem_cons_self c hc
      refine ⟨breaks, keeps.mono fun b c₁ hc₁ => ?_⟩
      rw [breaks_bind]
      exact ⟨ih (fun x hx => step x (List.mem_cons_of_mem a hx)) hc₁, fun _ _ _ => (total_pure _).breaks⟩

theorem breaks_forM {I : Context σ → Prop} {f : α → Build σ Unit} {l : List α}
    (step : ∀ a ∈ l, ∀ c, I c → Breaks (f a) E c P ∧ After (f a) E c fun _ c' => I c') (hc : I c) :
    Breaks (l.forM f) E c P := by
  induction l generalizing c with
  | nil => exact (total_pure _).breaks
  | cons a l ih =>
      rw [show (a :: l).forM f = f a >>= fun _ => l.forM f from rfl, breaks_bind]
      obtain ⟨breaks, keeps⟩ := step a List.mem_cons_self c hc
      exact ⟨breaks, keeps.mono fun _ c₁ hc₁ => ih (fun x hx => step x (List.mem_cons_of_mem a hx)) hc₁⟩

theorem breaks_foldlM {I : β → Context σ → Prop} {f : β → α → Build σ β} {l : List α} {b : β}
    (step : ∀ a ∈ l, ∀ b c, I b c → Breaks (f b a) E c P ∧ After (f b a) E c I) (hc : I b c) :
    Breaks (l.foldlM f b) E c P := by
  induction l generalizing b c with
  | nil =>
      rw [List.foldlM_nil]
      exact (total_pure _).breaks
  | cons a l ih =>
      rw [List.foldlM_cons, breaks_bind]
      obtain ⟨breaks, keeps⟩ := step a List.mem_cons_self b c hc
      exact ⟨breaks, keeps.mono fun b₁ c₁ hc₁ => ih (fun x hx => step x (List.mem_cons_of_mem a hx)) hc₁⟩

end Build

end MaterialGraph
