import MaterialGraph.Proofs.Build.Children
import MaterialGraph.Proofs.Build.Ends
import MaterialGraph.Proofs.Replay

/-!
# The ledger of connections

A child is due a connection for each input of its node that takes an output of another node of the graph. It is due
when the child is noted. Later it is attempted, or it is forgone because the other node cannot be built.

* `Catalog.due?`, `Catalog.duesOf` : the connections that a child is due, read off the documents alone.
* `Ledger` : all that happens to the connections of children on the way from one context to another, entry by entry
  (`Ledger.moment`).
* `Ledger.reports_eq`, `Ledger.noted_eq` : what the journal reports are the attempts of the ledger, and what it notes
  are its children.
* `Balances` : what was due before and what becomes due is attempted, is forgone, or is due after.
-/

namespace MaterialGraph

set_option autoImplicit false

open Build Assembly

/-! ## Connections that are due -/

/-- A connection that the child for a node is due. -/
structure Due where
  composite : PartId
  consumer : Node
  part : PartId
  input : Input
  producer : Node
  output : Option String
deriving DecidableEq

namespace Due

def edge (d : Due) : Edge := ⟨d.producer.name, d.consumer.name⟩

def pending (d : Due) : Pending := ⟨d.consumer, some ⟨d.input, d.producer, d.output⟩⟩

end Due

namespace Catalog

/-- The connection that a child is due for a declared input of its node: if the element that says what the input is
bound to is an input, it names a node of the graph, and an output of that node can be chosen. -/
def due? (C : Catalog) (id : PartId) (g : Graph) (n : Node) (y : PartId) (i : Input) : Option Due :=
  let element := C.elementOf g n i
  if element.isInput then
    (element.nodeName?.bind g.node?).bind fun producer =>
      let outputs := ((C.nodeDefOf? producer).map NodeDef.outputs).getD []
      (chooseOutput producer.type outputs element.output? element.name).toOption.map fun output =>
        ⟨id, n, y, i, producer, output⟩
  else none

/-- The connections that a child is due, in the order in which the definition of its node declares the inputs. -/
def duesOf (C : Catalog) (id : PartId) (g : Graph) (n : Node) (y : PartId) : List Due :=
  (((C.nodeDefOf? n).map NodeDef.inputs).getD []).filterMap (C.due? id g n y)

end Catalog

/-! ## Entries -/

/-- An entry of the ledger. -/
inductive Entry where
  | child (id : PartId) (g : Graph) (n : Node) (y : PartId)
  | attempt (d : Due)
  | loss (d : Due)

namespace Entry

def child? : Entry → Option (PartId × String)
  | child id _ n _ => some (id, n.name)
  | _ => none

def attempt? : Entry → Option Due
  | attempt d => some d
  | _ => none

def loss? : Entry → Option Due
  | loss d => some d
  | _ => none

def dues (C : Catalog) : Entry → List Due
  | child id g n y => C.duesOf id g n y
  | _ => []

end Entry

/-- The children that are noted, one after the other. -/
def children (es : List Entry) : List (PartId × String) := es.filterMap Entry.child?

/-- The connections that are attempted, one after the other. -/
def attempts (es : List Entry) : List Due := es.filterMap Entry.attempt?

/-- The connections that are forgone, one after the other. -/
def losses (es : List Entry) : List Due := es.filterMap Entry.loss?

/-- The connections that become due, one after the other. -/
def duesIn (C : Catalog) (es : List Entry) : List Due := es.flatMap (Entry.dues C)

section

variable (C : Catalog) (es fs : List Entry)

@[simp] theorem children_append : children (es ++ fs) = children es ++ children fs := List.filterMap_append

@[simp] theorem attempts_append : attempts (es ++ fs) = attempts es ++ attempts fs := List.filterMap_append

@[simp] theorem losses_append : losses (es ++ fs) = losses es ++ losses fs := List.filterMap_append

@[simp] theorem duesIn_append : duesIn C (es ++ fs) = duesIn C es ++ duesIn C fs := List.flatMap_append

end

/-! ## Events -/

namespace Event

/-- The nodes that an event reports to be connected or not. -/
def report? : Event → Option Edge
  | remarked _ (.connected producer consumer) => some ⟨producer, consumer⟩
  | remarked _ (.refused producer consumer _ _) => some ⟨producer, consumer⟩
  | warned (.connection producer consumer _ _) => some ⟨producer, consumer⟩
  | _ => none

/-- An event leaves children and their connections aside: no child and no connection of children is noted, and none is
reported to be connected or not. -/
def IsAside : Event → Prop
  | edited (.child _ _ _) => False
  | edited (.edge _ _) => False
  | remarked _ (.connected _ _) => False
  | remarked _ (.refused _ _ _ _) => False
  | warned (.connection _ _ _ _) => False
  | _ => True

variable {e : Event}

theorem IsAside.report? (h : e.IsAside) : e.report? = none := by
  unfold Event.report?
  split
  · exact h.elim
  · exact h.elim
  · exact h.elim
  · rfl

theorem IsAside.noted? (h : e.IsAside) : e.noted? = none := by
  unfold Event.noted?
  split
  · exact h.elim
  · rfl

theorem isAside_of_isHandiwork (h : e.IsHandiwork) : e.IsAside := by
  unfold IsHandiwork at h
  split at h
  · trivial
  · trivial
  · trivial
  · exact h.elim

end Event

/-- The nodes that are reported to be connected or not, in the order of the events. -/
def reports (j : List Event) : List Edge := j.filterMap Event.report?

namespace Build

variable {σ : Type} {r : Renderer σ} {W : Env σ} {c c₁ c' : Context σ} {p : Place} {id x y : PartId} {g : Graph}
  {n : Node} {i : Input} {d : Due} {es fs : List Entry} {ds ds' before after : List Due}

/-- No event on the way is about children or their connections. -/
abbrev Aside : Context σ → Context σ → Prop := Only Event.IsAside

theorem Handiwork.aside (h : Handiwork c c') : Aside c c' := h.mono fun _ he => Event.isAside_of_isHandiwork he

theorem Aside.noted_eq (h : Aside c c') : noted c'.journal = noted c.journal := h.filterMap_eq fun _ he => he.noted?

/-! ## Binding and connecting -/

theorem aside_bindPart {E : Env σ} {fuel : Nat} {b : Binding} :
    After (bindPart fuel x i b) E c fun _ c' => Aside c c' := by
  induction fuel generalizing x i c with
  | zero => exact after_outOfFuel
  | succ fuel ih =>
      rw [bindPart, after_bind, after_assembly]
      split
      · exact after_pure.2 (.refl c)
      · exact after_bindLeaf.mono fun _ _ binds => binds.handiwork.aside
      · split
        · exact after_pure.2 (.refl c)
        · next sockets _ =>
          rw [after_bind]
          refine (after_forM (I := Aside c) (fun s _ c₁ before => ?_) (.refl c)).mono fun _ c₁ before =>
            after_forAll (I := Aside c) (fun t _ c₂ before => ?_) before
          · exact after_remark.2 (before.push trivial)
          · exact ih.mono fun _ _ more => before.trans more

theorem aside_bindInput {E : Env σ} {b : Binding} : After (bindInput x i b) E c fun _ c' => Aside c c' := by
  rw [bindInput, after_bind]
  rintro fuel c₁ ⟨⟩
  exact aside_bindPart

theorem aside_connect {E : Env σ} {output : Option String} :
    After (connect x output y i) E c fun _ c' => Aside c c' := by
  rw [connect, after_asTask, after_andThen]
  have began : Aside c (c.edit (.began (.connection x output y i))) := .event rfl trivial
  refine after_outputHandle.mono ?_
  rintro res c₁ ⟨rfl, -⟩
  refine ⟨fun h _ => ?_, fun e _ => began.edit trivial⟩
  exact aside_bindInput.mono fun _ _ more => (began.trans more).edit trivial

/-- An attempt to connect two children notes no child and reports nothing by itself. -/
theorem only_connectChildren {e : Edge} {output : Option String} :
    After (connectChildren id e x output y i) (W.at p) c fun _ c' =>
      Only (fun e => e.report? = none ∧ e.noted? = none) c c' := by
  have quiet {c c' : Context σ} (h : Aside c c') : Only (fun e => e.report? = none ∧ e.noted? = none) c c' :=
    h.mono fun _ he => ⟨he.report?, he.noted?⟩
  refine connects_connectChildren.mono fun res c₁ connects => ?_
  cases connects with
  | cycle => exact .refl c
  | failed _ call => exact quiet (aside_connect.of_eq call)
  | made _ call => exact (quiet (aside_connect.of_eq call)).edit ⟨rfl, rfl⟩

/-! ## Ledgers -/

/-- An event says how the attempt of a connection has ended. -/
inductive Reports (d : Due) : Result Unit → Event → Prop
  | connected (margin : Margin) :
      Reports d (.ok ()) (.remarked margin (.connected d.producer.name d.consumer.name))
  | refused (margin : Margin) (e : LoadError) :
      Reports d (.error e) (.remarked margin (.refused d.producer.name d.consumer.name d.input.name e))
  | failed (e : LoadError) :
      Reports d (.error e) (.warned (.connection d.producer.name d.consumer.name d.input.name e))

/-- An entry is made. A connection is attempted if there are children for both its nodes, and the attempt is reported.
It is forgone if its producer has just been tried in vain, with nothing left behind. -/
inductive Enters (W : Env σ) : Entry → Context σ → Context σ → Prop
  | child {c : Context σ} {id : PartId} {g : Graph} {n : Node} (graph : HasGraph c.assembly id g) (node : g.Has n)
      (y : PartId) : Enters W (.child id g n y) c (c.edit (.child id n.name y))
  | attempt {c c₁ : Context σ} {d : Due} {x : PartId} {p : Place} {res : Result Unit} {e : Event}
      (producer : c.assembly.child? d.composite d.producer.name = some x)
      (consumer : c.assembly.child? d.composite d.consumer.name = some d.part)
      (tried : connectChildren d.composite d.edge x d.output d.part d.input (W.at p) c = .ok (res, c₁))
      (report : Reports d res e) : Enters W (.attempt d) c (c₁.push e)
  | loss {c₀ c : Context σ} {d : Due} {sub : SubPart σ} {p : Place} (way : IsWay sub)
      (vain : buildChild sub d.composite d.producer (W.at p) c₀ = .ok ((none, []), c))
      (barren : Barren W.renderer c₀ c)
      (missing : c.assembly.child? d.composite d.producer.name = none)
      (consumer : c.assembly.child? d.composite d.consumer.name = some d.part) : Enters W (.loss d) c c

/-- On the way from one context to another some entries are made, one after the other. The steps between them leave
children and their connections aside. -/
inductive Ledger (W : Env σ) : List Entry → Context σ → Context σ → Prop
  | aside {c c' : Context σ} (aside : Aside c c') (steps : Steps W.renderer c c') : Ledger W [] c c'
  | entry {e : Entry} {c c' : Context σ} (enters : Enters W e c c') : Ledger W [e] c c'
  | append {es fs : List Entry} {c c₁ c₂ : Context σ} (first : Ledger W es c c₁) (second : Ledger W fs c₁ c₂) :
      Ledger W (es ++ fs) c c₂

/-! ## What a ledger says of the journal -/

theorem Reports.report? {res : Result Unit} {e : Event} (h : Reports d res e) : e.report? = some d.edge := by
  cases h <;> rfl

theorem Reports.noted? {res : Result Unit} {e : Event} (h : Reports d res e) : e.noted? = none := by
  cases h <;> rfl

theorem Enters.noted_eq {e : Entry} (h : Enters W e c c') :
    noted c'.journal = (children [e]).reverse ++ noted c.journal := by
  cases h with
  | child | loss => rfl
  | attempt _ _ tried report =>
      have same := (only_connectChildren.of_eq tried).filterMap_eq (f := Event.noted?) fun _ he => he.2
      exact (List.filterMap_cons_none report.noted?).trans same

/-- What the journal notes are the children of the ledger. The latest comes first. -/
theorem Ledger.noted_eq (h : Ledger W es c c') : noted c'.journal = (children es).reverse ++ noted c.journal := by
  induction h with
  | aside aside => exact aside.noted_eq
  | entry enters => exact enters.noted_eq
  | append _ _ ih₁ ih₂ => rw [ih₂, ih₁, children_append, List.reverse_append, List.append_assoc]

/-! ## Moments of a ledger -/

theorem steps_connectChildren {e : Edge} {output : Option String} :
    After (connectChildren id e x output y i) (W.at p) c fun _ c' => Steps W.renderer c c' := by
  refine connects_connectChildren.mono fun _ c' connects => ?_
  cases connects with
  | cycle => exact .refl
  | failed _ call => exact (after_connect.of_eq call).steps
  | made _ call => exact (after_connect.of_eq call).steps.tail (.note (.edge _ _))

theorem Reports.isMessage {res : Result Unit} {e : Event} (h : Reports d res e) : IsMessage e := by
  cases h with
  | connected | refused => exact .remark _ _
  | failed => exact .warning _

theorem Enters.steps {e : Entry} (h : Enters W e c c') : Steps W.renderer c c' := by
  cases h with
  | child => exact .single (.note (.child _ _ _))
  | attempt _ _ tried report => exact (steps_connectChildren.of_eq tried).tail (.message report.isMessage)
  | loss => exact .refl

theorem Ledger.steps (h : Ledger W es c c') : Steps W.renderer c c' := by
  induction h with
  | aside _ steps => exact steps
  | entry enters => exact enters.steps
  | append _ _ ih₁ ih₂ => exact ih₁.trans ih₂

/-- Every entry is made at a moment on the way. -/
theorem Ledger.moment {e : Entry} (h : Ledger W es c c') (mem : e ∈ es) :
    ∃ c₀ c₁, Steps W.renderer c c₀ ∧ Enters W e c₀ c₁ ∧ Steps W.renderer c₁ c' := by
  induction h with
  | aside => cases mem
  | entry enters =>
      cases List.mem_singleton.1 mem
      exact ⟨_, _, .refl, enters, .refl⟩
  | append first second ih₁ ih₂ =>
      rcases List.mem_append.1 mem with mem | mem
      · obtain ⟨c₀, c₁, earlier, enters, later⟩ := ih₁ mem
        exact ⟨c₀, c₁, earlier, enters, later.trans second.steps⟩
      · obtain ⟨c₀, c₁, earlier, enters, later⟩ := ih₂ mem
        exact ⟨c₀, c₁, first.steps.trans earlier, enters, later⟩

/-- A child that has been noted on the way is an entry. -/
theorem Ledger.child_of_noted {name : String} (h : Ledger W es c c')
    (noted : .edited (.child id name y) ∈ c'.journal) (new : .edited (.child id name y) ∉ c.journal) :
    ∃ g n, .child id g n y ∈ es ∧ HasGraph c'.assembly id g ∧ g.Has n ∧ n.name = name := by
  induction h with
  | aside aside => exact (new (aside.old noted not_false)).elim
  | entry enters =>
      cases enters with
      | child graph node =>
          rcases List.mem_cons.1 noted with same | noted
          · cases same
            exact ⟨_, _, List.mem_singleton_self _, graph.extends (.note _ (.child _ _ _)), node, rfl⟩
          · exact (new noted).elim
      | attempt _ _ tried report =>
          rcases List.mem_cons.1 noted with rfl | noted
          · cases report
          · exact (new ((only_connectChildren.of_eq tried).old noted nofun)).elim
      | loss => exact (new noted).elim
  | @append _ _ _ c₁ _ first second ih₁ ih₂ =>
      by_cases before : .edited (.child id name y) ∈ c₁.journal
      · obtain ⟨g, n, mem, graph, node, same⟩ := ih₁ before new
        exact ⟨g, n, List.mem_append_left _ mem, graph.extends second.steps.extends, node, same⟩
      · obtain ⟨g, n, mem, rest⟩ := ih₂ noted before
        exact ⟨g, n, List.mem_append_right _ mem, rest⟩

/-! ## Balances -/

/-- Between two contexts a ledger is kept step by step, and it balances: what was due before and what becomes due is
attempted, is forgone, or is due after. -/
def Balances (W : Env σ) (before after : List Due) (c c' : Context σ) : Prop :=
  ∃ es, Ledger W es c c' ∧ (attempts es ++ losses es ++ after).Perm (duesIn W.catalog es ++ before)

namespace Balances

theorem aside (h : Aside c c') (steps : Steps W.renderer c c') (ds : List Due) : Balances W ds ds c c' :=
  ⟨[], .aside h steps, .refl _⟩

theorem refl (ds : List Due) (c : Context σ) : Balances W ds ds c c := aside (.refl c) .refl ds

/-- What is due from different sources may be taken care of one after the other. -/
theorem append {before' after' : List Due} (h₁ : Balances W before after c c₁) (h₂ : Balances W before' after' c₁ c') :
    Balances W (before ++ before') (after ++ after') c c' := by
  obtain ⟨es, first, law₁⟩ := h₁
  obtain ⟨fs, second, law₂⟩ := h₂
  refine ⟨es ++ fs, .append first second, List.perm_iff_count.2 fun d => ?_⟩
  have count₁ := law₁.count_eq d
  have count₂ := law₂.count_eq d
  simp only [attempts_append, losses_append, duesIn_append, List.count_append] at count₁ count₂ ⊢
  omega

/-- What becomes due and is taken care of within a stretch does not count. -/
theorem cancel (h : Balances W (before ++ ds) (ds ++ after) c c') : Balances W before after c c' := by
  obtain ⟨es, ledger, law⟩ := h
  refine ⟨es, ledger, List.perm_iff_count.2 fun d => ?_⟩
  have count := law.count_eq d
  simp only [List.count_append] at count ⊢
  omega

theorem trans (h₁ : Balances W before ds c c₁) (h₂ : Balances W ds after c₁ c') : Balances W before after c c' :=
  (h₁.append h₂).cancel

theorem push {e : Event} (h : Balances W before after c c') (message : IsMessage e) (he : e.IsAside) :
    Balances W before after c (c'.push e) :=
  h.trans (aside (.event rfl he) (.single (.message message)) after)

theorem edit {e : Edit} (h : Balances W before after c c') (step : Step W.renderer c' (c'.edit e))
    (he : (Event.edited e).IsAside) : Balances W before after c (c'.edit e) :=
  h.trans (aside (.event rfl he) (.single step) after)

/-- The order of what is due after does not matter. -/
theorem perm (h : Balances W before after c c') (same : after.Perm ds) : Balances W before ds c c' := by
  obtain ⟨es, ledger, law⟩ := h
  exact ⟨es, ledger, (same.symm.append_left _).trans law⟩

theorem child (graph : HasGraph c.assembly id g) (node : g.Has n) (y : PartId) :
    Balances W [] (W.catalog.duesOf id g n y) c (c.edit (.child id n.name y)) := by
  refine ⟨[.child id g n y], .entry (.child graph node y), .of_eq ?_⟩
  change W.catalog.duesOf id g n y = (W.catalog.duesOf id g n y ++ []) ++ []
  rw [List.append_nil, List.append_nil]

theorem attempt (h : Enters W (.attempt d) c c') : Balances W [d] [] c c' := ⟨[.attempt d], .entry h, .refl _⟩

theorem loss (h : Enters W (.loss d) c c') : Balances W [d] [] c c' := ⟨[.loss d], .entry h, .refl _⟩

end Balances

end Build

end MaterialGraph
