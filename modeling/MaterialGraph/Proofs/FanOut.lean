import MaterialGraph.Proofs.Sockets
import MaterialGraph.Proofs.Traces

/-!
# What a composite does with a binding

A composite takes what is bound to one of its inputs to every socket that has been opened for the input, one after the
other and whatever comes of it, and the first error is what comes of it all.

* `opened`, `socketsOf` : the sockets of an input, as events have opened them (`socketsFor?_replay`).
* `Sets` : what is bound to some inputs, down to the leaves, with what comes of each (`after_bindPart_sets`).
* `Confined` : what happens meanwhile concerns only leaves that are reached, and constants made for them.
* `binding_fans_out` : what comes of a binding to a composite.
-/

namespace MaterialGraph

set_option autoImplicit false

open Build Assembly

/-! ## Sockets opened by events -/

/-- The socket that an event opens under a name in a composite. -/
def Event.opened? (x : PartId) (name : String) : Event → Option Socket
  | edited (.socket id interface s) => if id = x ∧ interface = name then some s else none
  | _ => none

/-- The sockets that events have opened under a name in a composite, in their order. -/
def opened (j : List Event) (x : PartId) (name : String) : List Socket := j.filterMap (Event.opened? x name)

/-- The sockets of an input of a composite: those opened under the input's interface name, or, if there are none, those
opened under its own name. -/
def socketsOf (j : List Event) (x : PartId) (i : Input) : List Socket :=
  match i.interfaceName? with
  | some interface => if opened j x interface = [] then opened j x i.name else opened j x interface
  | none => opened j x i.name

def listed {α : Type} (l : List α) : Option (List α) := if l = [] then none else some l

/-- The sockets that a composite lists under a name. -/
def Assembly.socketList? (a : Assembly) (x : PartId) (name : String) : Option (List Socket) :=
  (a.composite? x).bind fun k => k.sockets[name]?

namespace Assembly

variable {a a' : Assembly} {x y : PartId} {name : String}

theorem socketList?_congr (same : a'.composite? x = a.composite? x) (name : String) :
    a'.socketList? x name = a.socketList? x name := by
  rw [socketList?, socketList?, same]

theorem socketList?_modifyComposite {f : Composite → Composite} (keeps : ∀ k, (f k).sockets = k.sockets)
    (name : String) : (a.modifyComposite y f).socketList? x name = a.socketList? x name := by
  rw [socketList?, socketList?, composite?_modifyComposite]
  split
  · cases a.composite? x <;> simp [keeps]
  · rfl

theorem socketList?_add_composite (a : Assembly) (g : Graph) (x : PartId) (name : String) :
    (a.apply (.add (.composite { graph := g }))).socketList? x name = a.socketList? x name := by
  rw [socketList?, socketList?, composite?_add_composite]
  split
  · next h =>
    have absent : a.composite? x = none := by
      rw [h, composite?, part?_eq_none.2 (Nat.le_refl _)]
    rw [absent]
    simp
  · rfl

/-- A new socket comes last in its list. -/
theorem socketList?_socket {s : Socket} (there : (a.composite? y).isSome) (name interface : String) :
    (a.apply (.socket y interface s)).socketList? x name =
      if y = x ∧ interface = name then some ((a.socketList? x name).getD [] ++ [s]) else a.socketList? x name := by
  obtain ⟨k, composite⟩ := Option.isSome_iff_exists.1 there
  rw [socketList?, socketList?, composite?_socket]
  by_cases hx : y = x
  · subst hx
    rw [if_pos rfl, composite]
    simp only [Option.map_some, Option.bind_some, Std.TreeMap.getElem?_insert, Std.LawfulEqCmp.compare_eq_iff_eq,
      Std.TreeMap.getD_eq_getD_getElem?, true_and]
    by_cases hn : interface = name
    · rw [if_pos hn, if_pos hn, hn]
    · rw [if_neg hn, if_neg hn]
  · rw [if_neg hx, if_neg fun same => hx same.1]

end Assembly

theorem listed_append {α : Type} (l : List α) (a : α) : listed (l ++ [a]) = some ((listed l).getD [] ++ [a]) := by
  unfold listed
  rw [if_neg (by simp)]
  split
  · next h => rw [h]; rfl
  · rfl

/-- An event changes the sockets under a name by opening one. -/
theorem socketList?_replayOn {a : Assembly} {e : Event} {x : PartId} {name : String}
    (fits : ∀ y, e = .edited y → Admits a y)
    (placed : ∀ id interface s, e = .edited (.socket id interface s) → (a.composite? id).isSome) :
    (e.replayOn a).socketList? x name =
      (e.opened? x name).elim (a.socketList? x name) fun s => some ((a.socketList? x name).getD [] ++ [s]) := by
  cases e with
  | edited y =>
      have fits := fits y rfl
      cases y with
      | add q =>
          cases q with
          | leaf l => exact socketList?_congr (composite?_add_leaf l) name
          | composite k =>
              obtain ⟨g, rfl⟩ := fits
              exact socketList?_add_composite a g x name
      | leaf y l =>
          obtain ⟨l₀, there, -⟩ := fits
          exact socketList?_congr (composite?_leaf there l) name
      | child | edge =>
          rw [Event.replayOn, apply, socketList?_modifyComposite]
          · rfl
          · exact fun _ => rfl
      | socket y interface s =>
          have opens := socketList?_socket (x := x) (s := s) (placed y interface s rfl) name interface
          rw [Event.opened?]
          by_cases here : y = x ∧ interface = name
          · rw [if_pos here] at opens ⊢
            exact opens
          · rw [if_neg here] at opens ⊢
            exact opens
      | _ => rfl
  | _ => rfl

/-- What a composite lists under a name is what events have opened there. -/
theorem socketList?_replay {j : List Event} (fits : Fits j) (tidy : Tidy j) (x : PartId) (name : String) :
    (replay j.reverse).socketList? x name = listed (opened j.reverse x name) := by
  induction j with
  | nil => rfl
  | cons e j ih =>
      have placed : ∀ id interface s, e = .edited (.socket id interface s) →
          ((replay j.reverse).composite? id).isSome := by
        rintro id interface s rfl
        obtain ⟨y, child⟩ := Option.isSome_iff_exists.1 (tidy.1 _ rfl)
        rw [child?] at child
        cases composite : (replay j.reverse).composite? id with
        | none => simp [composite] at child
        | some k => rfl
      rw [replay_reverse_cons, socketList?_replayOn fits.1 placed, ih fits.2 tidy.2, List.reverse_cons, opened, opened,
        List.filterMap_append]
      cases opens : e.opened? x name with
      | none =>
          rw [List.filterMap_cons_none opens, List.filterMap_nil, List.append_nil]
          rfl
      | some s =>
          rw [List.filterMap_cons_some opens, List.filterMap_nil]
          exact (listed_append _ s).symm

/-- The sockets at which a composite looks for an input. -/
theorem socketsFor?_replay {j : List Event} (fits : Fits j) (tidy : Tidy j) {x : PartId} {k : Composite}
    (composite : (replay j.reverse).composite? x = some k) (i : Input) :
    k.socketsFor? i = listed (socketsOf j.reverse x i) := by
  have under (name : String) : k.sockets[name]? = listed (opened j.reverse x name) := by
    have := socketList?_replay fits tidy x name
    rw [socketList?, composite] at this
    exact this
  rw [Composite.socketsFor?, socketsOf, under]
  cases i.interfaceName? with
  | none => rfl
  | some interface =>
      rw [Option.bind_some, under]
      dsimp only
      by_cases none : opened j.reverse x interface = []
      · rw [if_pos none, none]
        rfl
      · rw [if_neg none, listed, if_neg none]
        rfl

/-- Along a socket that has been opened, what is bound to the input of its name is passed on to the child. -/
theorem passesOn_of_opened {j : List Event} (fits : Fits j) (tidy : Tidy j) {x y : PartId} {name : String}
    {i input : Input} (plain : i.IsPlain) (opened : .edited (.socket x i.name ⟨name, input⟩) ∈ j)
    (child : (replay j.reverse).child? x name = some y) : (replay j.reverse).PassesOn (x, i) (y, input) := by
  obtain ⟨k, composite, child⟩ := Option.bind_eq_some_iff.1 child
  have mem : ⟨name, input⟩ ∈ socketsOf j.reverse x i := by
    have none : i.interfaceName? = none := plain
    rw [socketsOf, none]
    exact List.mem_filterMap.2 ⟨_, List.mem_reverse.2 opened, if_pos ⟨rfl, rfl⟩⟩
  refine .socket composite ?_ mem child
  rw [socketsFor?_replay fits tidy composite, listed, if_neg (List.ne_nil_of_mem mem)]

namespace Build

variable {σ : Type} {E : Env σ} {b : Binding} {c c₁ c' : Context σ} {x y : PartId} {i j : Input} {k : Composite}
  {l : Leaf} {ts us : List (PartId × Input)} {results inside : List (Result Unit)}

/-! ## What comes of a binding -/

def firstError (results : List (Result Unit)) : Result Unit := (results.find? fun res => !res.isOk).getD (.ok ())

theorem firstError_ok_cons (results : List (Result Unit)) : firstError (.ok () :: results) = firstError results := rfl

theorem firstError_error_cons (e : LoadError) (results : List (Result Unit)) :
    firstError (.error e :: results) = .error e := rfl

theorem firstError_eq_ok : firstError results = .ok () ↔ ∀ res ∈ results, res = .ok () := by
  induction results with
  | nil => exact ⟨nofun, fun _ => rfl⟩
  | cons res results ih =>
      cases res with
      | error e =>
          rw [firstError_error_cons]
          exact ⟨nofun, fun all => all _ List.mem_cons_self⟩
      | ok =>
          rw [firstError_ok_cons, ih]
          exact ⟨fun all => List.forall_mem_cons.2 ⟨rfl, all⟩, fun all => (List.forall_mem_cons.1 all).2⟩

/-- The context after it has been remarked that an override reaches some sockets. -/
def announced (m : Margin) (sockets : List Socket) (c : Context σ) : Context σ :=
  { c with journal := (sockets.map fun s => .remarked m (.socket s.child s.input.name)).reverse ++ c.journal }

theorem announced_cons (m : Margin) (s : Socket) (sockets : List Socket) (c : Context σ) :
    announced m (s :: sockets) c = announced m sockets (c.push (.remarked m (.socket s.child s.input.name))) := by
  rw [announced, announced, List.map_cons, List.reverse_cons, List.append_assoc]
  rfl

theorem after_announce {sockets : List Socket} {Q : Unit → Context σ → Prop} :
    After (sockets.forM fun s => remark (.socket s.child s.input.name)) E c Q ↔
      Q () (announced E.margin sockets c) := by
  induction sockets generalizing c with
  | nil => exact after_pure
  | cons s sockets ih =>
      rw [show (s :: sockets).forM _ = (remark _ >>= fun _ => sockets.forM _) from rfl, after_bind, after_remark, ih,
        announced_cons]

/-- What a binding to an input fails with that has no sockets. -/
def unopened (k : Composite) (i : Input) : LoadError :=
  .unsupported ("failed to set " ++ i.name ++ " input for " ++ k.graph.name ++ ": no such interface socket")

def LeadsTo (k : Composite) (s : Socket) (t : PartId × Input) : Prop := k.child? s.child = some t.1 ∧ s.input = t.2

theorem exists_leadsTo {sockets : List Socket} {t : PartId × Input} (each : List.Forall₂ (LeadsTo k) sockets us)
    (ht : t ∈ us) : ∃ s ∈ sockets, LeadsTo k s t := by
  induction each with
  | nil => exact absurd ht List.not_mem_nil
  | cons lead _ ih =>
      rcases List.mem_cons.1 ht with rfl | ht
      · exact ⟨_, List.mem_cons_self, lead⟩
      · obtain ⟨s, mem, lead⟩ := ih ht
        exact ⟨s, List.mem_cons_of_mem _ mem, lead⟩

/-- What is reached from where the sockets of an input lead to is reached from the input. -/
theorem reaches_of_leads {a : Assembly} {sockets : List Socket} {t : PartId × Input}
    (composite : a.composite? x = some k) (opened : k.socketsFor? i = some sockets)
    (each : List.Forall₂ (LeadsTo k) sockets us) (ht : t ∈ us) (reaches : a.Reaches t.1 t.2 y j) :
    a.Reaches x i y j := by
  obtain ⟨s, hs, child, input⟩ := exists_leadsTo each ht
  obtain ⟨z, i'⟩ := t
  cases input
  exact .head (.socket composite opened hs child) reaches

/-- If all sockets belong to children, none is left out. -/
theorem leads_targets {sockets : List Socket} (housed : ∀ s ∈ sockets, (k.child? s.child).isSome) :
    List.Forall₂ (LeadsTo k) sockets (targets k sockets) := by
  induction sockets with
  | nil => exact .nil
  | cons s sockets ih =>
      obtain ⟨here, rest⟩ := List.forall_mem_cons.1 housed
      obtain ⟨y, child⟩ := Option.isSome_iff_exists.1 here
      have first : targets k (s :: sockets) = (y, s.input) :: targets k sockets := by
        simp [targets, child]
      rw [first]
      exact .cons ⟨child, rfl⟩ (ih rest)

/-- Something is bound to some inputs, one after the other. A leaf takes it as its role says. A composite without
sockets for the input fails and does nothing; any other goes on with all of its sockets in order, whatever comes of each,
and ends with the first error. -/
inductive Sets (E : Env σ) (b : Binding) :
    List (PartId × Input) → Context σ → List (Result Unit) → Context σ → Prop
  | done (c : Context σ) : Sets E b [] c [] c
  | leaf {c c₁ c₂ : Context σ} {x : PartId} {i : Input} {l : Leaf} {ts : List (PartId × Input)} {res : Result Unit}
      {results : List (Result Unit)} (leaf : c.assembly.leaf? x = some l)
      (binds : bindLeaf x l i b E c = .ok (res, c₁)) (others : Sets E b ts c₁ results c₂) :
      Sets E b ((x, i) :: ts) c (res :: results) c₂
  | unopened {c c₁ : Context σ} {x : PartId} {i : Input} {k : Composite} {ts : List (PartId × Input)}
      {results : List (Result Unit)} (composite : c.assembly.composite? x = some k) (none : k.socketsFor? i = none)
      (others : Sets E b ts c results c₁) :
      Sets E b ((x, i) :: ts) c (.error (unopened k i) :: results) c₁
  | sockets {c c₁ c₂ : Context σ} {x : PartId} {i : Input} {k : Composite} {sockets : List Socket}
      {us ts : List (PartId × Input)} {inside results : List (Result Unit)}
      (composite : c.assembly.composite? x = some k) (opened : k.socketsFor? i = some sockets)
      (each : List.Forall₂ (LeadsTo k) sockets us) (inner : Sets E b us (announced E.margin sockets c) inside c₁)
      (others : Sets E b ts c₁ results c₂) :
      Sets E b ((x, i) :: ts) c (firstError inside :: results) c₂

theorem Sets.cons {res : Result Unit} {t : PartId × Input} (first : Sets E b [t] c [res] c₁)
    (others : Sets E b ts c₁ results c') : Sets E b (t :: ts) c (res :: results) c' := by
  cases first with
  | leaf leaf binds none => cases none; exact .leaf leaf binds others
  | unopened composite closed none => cases none; exact .unopened composite closed others
  | sockets composite opened each inner none => cases none; exact .sockets composite opened each inner others

theorem Sets.rebinds (sets : Sets E b ts c results c') :
    Rebinds (fun y => ∃ t ∈ ts, ∃ j, c.assembly.Reaches t.1 t.2 y j) c.assembly c'.assembly := by
  induction sets with
  | done => exact .refl _
  | @leaf c c₁ c₂ x i l ts res results leaf binds _ ih =>
      have here : Rebinds (· = x) c.assembly c₁.assembly := (after_bindLeaf _ _ binds).rebinds leaf
      refine (here.mono ?_).trans (ih.mono ?_)
      · rintro _ rfl
        exact ⟨_, List.mem_cons_self, i, .refl⟩
      · rintro y ⟨t, mem, j, reaches⟩
        exact ⟨t, List.mem_cons_of_mem _ mem, j, reaches.congr fun z => (here.composite z).symm⟩
  | unopened _ _ _ ih =>
      refine ih.mono ?_
      rintro y ⟨t, mem, reached⟩
      exact ⟨t, List.mem_cons_of_mem _ mem, reached⟩
  | @sockets c c₁ c₂ x i k sockets us ts inside results composite opened each _ _ ihInner ihOthers =>
      have inner : Rebinds (fun y => ∃ j, c.assembly.Reaches x i y j) c.assembly c₁.assembly := by
        refine ihInner.mono ?_
        rintro y ⟨t, mem, j, reaches⟩
        exact ⟨j, reaches_of_leads composite opened each mem reaches⟩
      refine (inner.mono ?_).trans (ihOthers.mono ?_)
      · rintro y ⟨j, reaches⟩
        exact ⟨_, List.mem_cons_self, j, reaches⟩
      · rintro y ⟨t, mem, j, reaches⟩
        exact ⟨t, List.mem_cons_of_mem _ mem, j, reaches.congr fun z => (inner.composite z).symm⟩

/-! ## Bindings do so -/

/-- Children have larger numbers than their composites, and sockets belong to children. -/
structure Furnished (a : Assembly) : Prop where
  descends : Descends a
  socket : ∀ {id name s}, s ∈ a.sockets id name → (a.child? id s.child).isSome

theorem Furnished.rebinds {S : PartId → Prop} {a a' : Assembly} (furnished : Furnished a) (h : Rebinds S a a') :
    Furnished a' where
  descends := h.descends furnished.descends
  socket {id name s} hs := by
    rw [sockets_congr (h.composite id)] at hs
    rw [child?_congr (h.composite id)]
    exact furnished.socket hs

/-- Every socket for an input leads to an input of a child. -/
theorem Furnished.leads {a : Assembly} {sockets : List Socket} (furnished : Furnished a)
    (composite : a.composite? x = some k) (opened : k.socketsFor? i = some sockets) :
    List.Forall₂ (LeadsTo k) sockets (targets k sockets) := by
  refine leads_targets fun s hs => ?_
  obtain ⟨name, listed⟩ : ∃ name : String, k.sockets[name]? = some sockets := by
    rcases Option.or_eq_some_iff.1 opened with own | ⟨-, own⟩
    · obtain ⟨name, -, listed⟩ := Option.bind_eq_some_iff.1 own
      exact ⟨name, listed⟩
    · exact ⟨i.name, own⟩
  have mem : s ∈ a.sockets x name := by
    rw [Assembly.sockets, composite, Option.map_some, Option.getD_some, Std.TreeMap.getD_eq_getD_getElem?, listed]
    exact hs
  have child := furnished.socket mem
  rwa [child?_of_composite? composite] at child

/-- What several bindings do one by one, they do one after the other. -/
theorem after_forAll_sets {I : Context σ → Prop} {f : PartId × Input → Build σ (Result Unit)}
    (step : ∀ t ∈ ts, ∀ c, I c → After (f t) E c fun res c' => Sets E b [t] c [res] c' ∧ I c') (hc : I c) :
    After (forAll f ts) E c fun res c' => ∃ results, Sets E b ts c results c' ∧ res = firstError results := by
  induction ts generalizing c with
  | nil => exact after_pure.2 ⟨[], .done c, rfl⟩
  | cons t ts ih =>
      rw [forAll, after_bind]
      refine (step t List.mem_cons_self c hc).mono ?_
      rintro first c₁ ⟨sets, hc₁⟩
      rw [after_bind]
      refine (ih (fun u hu => step u (List.mem_cons_of_mem _ hu)) hc₁).mono ?_
      rintro rest c₂ ⟨results, others, rfl⟩
      cases first with
      | error e => exact after_pure.2 ⟨_, sets.cons others, rfl⟩
      | ok => exact after_pure.2 ⟨_, sets.cons others, rfl⟩

theorem after_bindPart_sets {fuel : Nat} (furnished : Furnished c.assembly) (there : x < c.assembly.size) :
    After (bindPart fuel x i b) E c fun res c' => Sets E b [(x, i)] c [res] c' := by
  induction fuel generalizing x i c with
  | zero => exact after_outOfFuel
  | succ fuel ih =>
      rw [bindPart, after_bind, after_assembly]
      split
      · next none => exact absurd there (Nat.not_lt.2 (part?_eq_none.1 none))
      · next l leaf =>
        intro res c' binds
        exact .leaf (leaf?_eq_some.2 leaf) binds (.done c')
      · next k part =>
        have composite := composite?_eq_some.2 part
        split
        · next none => exact after_pure.2 (.unopened composite none (.done c))
        · next sockets opened =>
          rw [after_bind, after_announce]
          refine (after_forAll_sets (b := b) (c := announced E.margin sockets c)
            (I := fun c₁ => Rebinds (fun _ => True) c.assembly c₁.assembly) (fun t ht c₁ rebinds => ?_) (.refl _)).mono ?_
          · obtain ⟨s, -, hs⟩ := List.mem_filterMap.1 ht
            obtain ⟨y, child, rfl⟩ := Option.map_eq_some_iff.1 hs
            have below := furnished.descends ((child?_of_composite? composite _).trans child)
            refine ((ih (furnished.rebinds rebinds) (rebinds.size.symm ▸ below.2)).and after_bindPart).mono ?_
            rintro res c₂ ⟨sets, binds⟩
            exact ⟨sets, rebinds.trans (binds.rebinds.mono fun _ _ => trivial)⟩
          · rintro res c' ⟨results, sets, rfl⟩
            exact .sockets composite opened (furnished.leads composite opened) sets (.done c')

/-! ## What is left alone -/

/-- An event concerns only the leaves of a set and constants made meanwhile: a leaf of the set changes, its own node is
bound to something, a displacement of the set loses the constant that it owns, or a constant is made, set up or deleted
again. -/
inductive Concerns (a : Assembly) (S : PartId → Prop) (made : List Handle) : Event → Prop
  | remark (m : Margin) (r : Remark) : Concerns a S made (.remarked m r)
  | leaf {y : PartId} (l : Leaf) (reached : S y) : Concerns a S made (.edited (.leaf y l))
  | constant (reply : Except CallError Handle) : Concerns a S made (.created .constantTexture reply)
  | bind {y : PartId} {l : Leaf} {h : Handle} (key : InputKey) (value : Bound) (reply : Except CallError Unit)
      (reached : S y) (leaf : a.leaf? y = some l) (native : Forwards l.role = false) (held : l.hold.handle? = some h) :
      Concerns a S made (.acted (.bind h key value) reply)
  | delete {y : PartId} {l : Leaf} {h : Handle} {name : String} (reply : Except CallError Unit) (reached : S y)
      (leaf : a.leaf? y = some l) (role : l.role = .displacement name) (own : l.hold.owned? = some h) :
      Concerns a S made (.acted (.delete h) reply)
  | onConstant {act : Action} {h : Handle} (reply : Except CallError Unit) (mem : h ∈ made)
      (target : (Event.acted act reply).target? = some h) : Concerns a S made (.acted act reply)

theorem Concerns.mono {a : Assembly} {S : PartId → Prop} {made more : List Handle} {e : Event}
    (concerns : Concerns a S made e) (sub : made ⊆ more) : Concerns a S more e := by
  cases concerns with
  | remark => exact .remark _ _
  | leaf l reached => exact .leaf l reached
  | constant => exact .constant _
  | bind key value reply reached leaf native held => exact .bind key value reply reached leaf native held
  | delete reply reached leaf role own => exact .delete reply reached leaf role own
  | onConstant reply mem target => exact .onConstant reply (sub mem) target

/-- What a leaf can have become while constants were made: one with a node of its own keeps it, and what a displacement
owns it owned before, or it is one of the constants. -/
structure Becomes (made : List Handle) (l₀ l : Leaf) : Prop where
  native : Forwards l.role = false → Forwards l₀.role = false ∧ l.hold = l₀.hold
  displacement : ∀ name, l.role = .displacement name → l₀.role = .displacement name
  owned : ∀ h, l.hold.owned? = some h → l₀.hold.owned? = some h ∨ h ∈ made

/-- From one context to another, some events happen that concern only the leaves of a set. -/
structure Confined (S : PartId → Prop) (c₀ c : Context σ) (new : List Event) : Prop where
  journal : c.journal = new ++ c₀.journal
  events : ∀ e ∈ new, Concerns c₀.assembly S (created new) e
  leaves : ∀ y l, c.assembly.leaf? y = some l → ∃ l₀, c₀.assembly.leaf? y = some l₀ ∧ Becomes (created new) l₀ l

theorem created_subset_cons (e : Event) (new : List Event) : created new ⊆ created (e :: new) :=
  ((List.sublist_cons_self e new).filterMap _).subset

namespace Confined

variable {S : PartId → Prop} {r : Renderer σ} {c₀ : Context σ} {new : List Event}

theorem refl (S : PartId → Prop) (c : Context σ) : Confined S c c [] where
  journal := rfl
  events _ he := absurd he List.not_mem_nil
  leaves _ l leaf := ⟨l, leaf, fun native => ⟨native, rfl⟩, fun _ role => role, fun _ own => .inl own⟩

theorem event {e : Event} (confined : Confined S c₀ c new) (journal : c'.journal = e :: c.journal)
    (leaf : ∀ y l', c'.assembly.leaf? y = some l' → ∃ l, c.assembly.leaf? y = some l ∧
      ∀ l₀, Becomes (created (e :: new)) l₀ l → Becomes (created (e :: new)) l₀ l')
    (concerns : Concerns c₀.assembly S (created (e :: new)) e) : Confined S c₀ c' (e :: new) where
  journal := by rw [journal, confined.journal, List.cons_append]
  events := List.forall_mem_cons.2 ⟨concerns, fun e' he' =>
    (confined.events e' he').mono (created_subset_cons e new)⟩
  leaves y l' there := by
    obtain ⟨l, before, becomes⟩ := leaf y l' there
    obtain ⟨l₀, start, became⟩ := confined.leaves y l before
    exact ⟨l₀, start, becomes l₀
      { became with owned := fun h own => (became.owned h own).imp_right fun mem => created_subset_cons e new mem }⟩

/-- A leaf of the set changes. -/
theorem setLeaf {l' : Leaf} (confined : Confined S c₀ c new) (reached : S x) (leaf : c.assembly.leaf? x = some l)
    (becomes : ∀ l₀, Becomes (created new) l₀ l → Becomes (created new) l₀ l') :
    Confined S c₀ (c.edit (.leaf x l')) (.edited (.leaf x l') :: new) := by
  refine confined.event rfl (fun y l₁ there => ?_) (.leaf l' reached)
  rw [Context.edit_assembly, leaf?_leaf leaf] at there
  split at there
  · next same =>
    cases there
    exact ⟨l, same ▸ leaf, becomes⟩
  · exact ⟨l₁, there, fun _ => id⟩

/-- A call happens, which changes no leaf. -/
theorem acted {act : Action} (confined : Confined S c₀ c new)
    (concerns : Concerns c₀.assembly S (created new) (.acted act (r.act act c.system).1)) :
    Confined S c₀ (c.acted r act) (.acted act (r.act act c.system).1 :: new) :=
  confined.event rfl (fun _ l there => ⟨l, there, fun _ => id⟩) concerns

theorem announced (confined : Confined S c₀ c new) (m : Margin) (sockets : List Socket) :
    ∃ new', Confined S c₀ (Build.announced m sockets c) new' := by
  induction sockets generalizing c new with
  | nil => exact ⟨new, confined⟩
  | cons s sockets ih =>
      rw [announced_cons]
      exact ih (confined.event rfl (fun _ l there => ⟨l, there, fun _ => id⟩) (.remark _ _))

/-- A displacement gives up what it holds. -/
theorem released {name : String} (confined : Confined S c₀ c new) (reached : S x)
    (leaf : c.assembly.leaf? x = some l) (role : l.role = .displacement name) :
    ∃ new', Confined S c₀ (Build.released r x l c) new' := by
  have emptied : Confined S c₀ (c.edit (.leaf x { l with hold := .nothing }))
      (.edited (.leaf x { l with hold := .nothing }) :: new) := confined.setLeaf reached leaf fun l₀ became =>
    { native := fun native => by rw [role] at native; cases native
      displacement := became.displacement
      owned := nofun }
  rw [Build.released]
  cases own : l.hold.owned? with
  | none => exact ⟨_, emptied⟩
  | some h =>
      obtain ⟨l₀, start, became⟩ := confined.leaves x l leaf
      refine ⟨_, emptied.acted ?_⟩
      rcases became.owned h own with before | made
      · exact .delete _ reached start (became.displacement name role) before
      · exact .onConstant _ made rfl

/-- A constant is made, or not. -/
theorem creates {role : Role} {settings : List (InputKey × Bound)} {name : Option String} {res : Result Leaf}
    (confined : Confined S c₀ c new)
    (creation : CreatesLeaf r .constantTexture role settings name c res c') :
    ∃ new', Confined S c₀ c' new' ∧ ∀ l h, res = .ok l → l.hold.owned? = some h → h ∈ created new' := by
  have asked : Confined S c₀ (c.created r .constantTexture)
      (.created .constantTexture (r.create .constantTexture c.system).1 :: new) :=
    confined.event rfl (fun _ l there => ⟨l, there, fun _ => id⟩) (.constant _)
  have setUp {h : Handle} {c₁ c₂ : Context σ} (acts : Acts r (IsSetting h settings) c₁ c₂) {new : List Event}
      (confined : Confined S c₀ c₁ new) (mem : h ∈ created new) :
      ∃ new', Confined S c₀ c₂ new' ∧ h ∈ created new' := by
    induction acts with
    | refl => exact ⟨new, confined, mem⟩
    | act _ setting ih =>
        obtain ⟨new', confined', mem'⟩ := ih
        refine ⟨_, confined'.acted (.onConstant _ mem' ?_), created_subset_cons _ _ mem'⟩
        cases setting <;> rfl
  have mine {h : Handle} (reply : (r.create .constantTexture c.system).1 = .ok h) :
      h ∈ created (.created .constantTexture (r.create .constantTexture c.system).1 :: new) := by
    rw [reply]
    exact List.mem_cons_self
  cases creation with
  | refused => exact ⟨_, asked, fun _ _ made => by cases made⟩
  | done reply setup =>
      obtain ⟨new', confined', mem⟩ := setUp setup.settings asked (mine reply)
      refine ⟨new', confined', ?_⟩
      rintro _ _ ⟨⟩ ⟨⟩
      exact mem
  | undone reply setup =>
      obtain ⟨new', confined', mem⟩ := setUp setup.settings asked (mine reply)
      exact ⟨_, confined'.acted (.onConstant _ mem rfl), fun _ _ made => by cases made⟩

theorem bindsLeaf {res : Result Unit} (confined : Confined S c₀ c new) (reached : S x)
    (leaf : c.assembly.leaf? x = some l) (binds : BindsLeaf r x l b c res c') : ∃ new', Confined S c₀ c' new' := by
  have empty := leaf?_released (r := r) leaf
  cases binds with
  | unchanged => exact ⟨new, confined⟩
  | called key res mem held =>
      have native := native_of_mem_inputKeys mem
      obtain ⟨l₀, start, became⟩ := confined.leaves x l leaf
      obtain ⟨native₀, same⟩ := became.native native
      exact ⟨_, confined.acted (.bind key _ _ reached start native₀ (same ▸ held))⟩
  | params p' role =>
      refine ⟨_, confined.setLeaf reached leaf fun l₀ became => ⟨fun _ => ?_, nofun, became.owned⟩⟩
      exact became.native (by rw [role]; rfl)
  | forwarded role node =>
      refine ⟨_, confined.setLeaf reached leaf fun l₀ became => ⟨fun native => ?_, fun name displaces => ?_, nofun⟩⟩
      · rw [role] at native
        cases native
      · rw [role] at displaces
        cases displaces
  | redirected role node =>
      obtain ⟨_, gone⟩ := confined.released (r := r) reached leaf role
      refine ⟨_, gone.setLeaf reached empty fun l₀ became => ⟨fun native => ?_, became.displacement, nofun⟩⟩
      rw [role] at native
      cases native
  | emptied role => exact confined.released reached leaf role
  | lost role _ creation =>
      obtain ⟨_, gone⟩ := confined.released (r := r) reached leaf role
      obtain ⟨new', confined', -⟩ := gone.creates creation
      exact ⟨new', confined'⟩
  | @replaced constant _ _ _ _ c₁ role _ creation =>
      obtain ⟨_, gone⟩ := confined.released (r := r) reached leaf role
      obtain ⟨new', confined', made⟩ := gone.creates creation
      have there : c₁.assembly.leaf? x = some { l with hold := .nothing } := by
        rw [creation.assembly]
        exact empty
      refine ⟨_, confined'.setLeaf reached there fun l₀ became =>
        ⟨fun native => ?_, became.displacement, fun h own => .inr (made constant h rfl own)⟩⟩
      rw [role] at native
      cases native

end Confined

/-- Whatever is bound, only what is reached is concerned. -/
theorem Sets.confined {S : PartId → Prop} {c₀ : Context σ} {new : List Event} (sets : Sets E b ts c results c')
    (confined : Confined S c₀ c new)
    (reached : ∀ t ∈ ts, ∀ y j, c.assembly.Reaches t.1 t.2 y j → S y) : ∃ new', Confined S c₀ c' new' := by
  induction sets generalizing new with
  | done => exact ⟨new, confined⟩
  | @leaf c c₁ _ x i l ts res _ leaf binds _ ih =>
      have binding := after_bindLeaf _ _ binds
      obtain ⟨_, confined₁⟩ := confined.bindsLeaf (reached _ List.mem_cons_self x i .refl) leaf binding
      refine ih confined₁ fun t ht y j reaches => ?_
      exact reached t (List.mem_cons_of_mem _ ht) y j
        (reaches.congr fun z => ((binding.rebinds leaf).composite z).symm)
  | unopened _ _ _ ih => exact ih confined fun t ht => reached t (List.mem_cons_of_mem _ ht)
  | @sockets c c₁ _ x i k sockets us ts _ _ composite opened each inner _ ihInner ihOthers =>
      obtain ⟨_, confined₀⟩ := confined.announced E.margin sockets
      obtain ⟨_, confined₁⟩ := ihInner confined₀ fun t ht y j reaches =>
        reached _ List.mem_cons_self y j (reaches_of_leads composite opened each ht reaches)
      have same := inner.rebinds.composite
      exact ihOthers confined₁ fun t ht y j reaches =>
        reached t (List.mem_cons_of_mem _ ht) y j (reaches.congr fun z => (same z).symm)

/-! ## Fan-out -/

/-- What comes of a binding to an input of a composite that has some sockets for it: without any, nothing is done;
otherwise something is bound at every socket in order, and the first error is what comes of it. In either case nothing
else happens than what concerns the leaves that are reached. -/
structure FansOut (E : Env σ) (b : Binding) (x : PartId) (k : Composite) (i : Input) (sockets : List Socket)
    (c : Context σ) (res : Result Unit) (c' : Context σ) : Prop where
  none : sockets = [] → res = .error (unopened k i) ∧ c' = c
  all : sockets ≠ [] → ∃ ts results, List.Forall₂ (LeadsTo k) sockets ts ∧
    Sets E b ts (announced E.margin sockets c) results c' ∧ res = firstError results ∧
    (res = .ok () ↔ ∀ q ∈ results, q = .ok ())
  others : Rebinds (fun y => ∃ j, c.assembly.Reaches x i y j) c.assembly c'.assembly
  calls : ∃ new, c'.journal = new ++ c.journal ∧
    ∀ e ∈ new, Concerns c.assembly (fun y => ∃ j, c.assembly.Reaches x i y j) (created new) e

theorem fansOut_of_sets {sockets : List Socket} {res : Result Unit} (composite : c.assembly.composite? x = some k)
    (stand : k.socketsFor? i = listed sockets) (sets : Sets E b [(x, i)] c [res] c') :
    FansOut E b x k i sockets c res c' where
  none empty := by
    rw [empty] at stand
    cases sets with
    | leaf leaf =>
        rw [leaf?_eq_none_of_composite? composite] at leaf
        cases leaf
    | unopened composite' _ others =>
        cases composite.symm.trans composite'
        cases others
        exact ⟨rfl, rfl⟩
    | sockets composite' opened =>
        cases composite.symm.trans composite'
        cases stand.symm.trans opened
  all some := by
    rw [listed, if_neg some] at stand
    cases sets with
    | leaf leaf =>
        rw [leaf?_eq_none_of_composite? composite] at leaf
        cases leaf
    | unopened composite' none =>
        cases composite.symm.trans composite'
        cases stand.symm.trans none
    | sockets composite' opened each inner others =>
        cases composite.symm.trans composite'
        cases stand.symm.trans opened
        cases others
        exact ⟨_, _, each, inner, rfl, firstError_eq_ok⟩
  others := by
    refine sets.rebinds.mono ?_
    rintro y ⟨t, ht, j, reaches⟩
    cases List.mem_singleton.1 ht
    exact ⟨j, reaches⟩
  calls := by
    obtain ⟨new, confined⟩ := sets.confined (S := fun y => ∃ j, c.assembly.Reaches x i y j) (.refl _ c)
      fun t ht y j reaches => by
        cases List.mem_singleton.1 ht
        exact ⟨j, reaches⟩
    exact ⟨new, confined.journal, confined.events⟩

end Build

/-- In every state of a load, whether it returns or not and whatever the renderer answers, a binding to an input of a
composite comes to an end and fans out to the sockets that have been opened for the input so far. -/
theorem binding_fans_out {σ τ : Type} (l : Loader) (d : Document) (options : LoadOptions) (fileExists : String → Bool)
    (r : Renderer σ) (s : σ) (before later : List Event) (split : l.trace d options fileExists r s = before ++ later)
    (E : Env τ) (c : Context τ) (state : c.assembly = replay before) (x : PartId) (k : Composite)
    (composite : c.assembly.composite? x = some k) (i : Input) (b : Binding) :
    ∃ res c', bindInput x i b E c = .ok (res, c') ∧ FansOut E b x k i (socketsOf before x i) c res c' := by
  obtain ⟨fits, tidy⟩ := tidy_of_trace split
  have forest : c.assembly.Forest := by
    have forest := tidy.forest fits
    rwa [List.reverse_reverse, ← state] at forest
  have stand : k.socketsFor? i = listed (socketsOf before x i) := by
    rw [state, ← List.reverse_reverse before] at composite
    have := socketsFor?_replay fits tidy composite i
    rwa [List.reverse_reverse] at this
  obtain ⟨res, c', bound⟩ := (returns_bindInput (E := E) forest.descends x i b).exists_eq
  have sets : Sets E b [(x, i)] c [res] c' :=
    after_bindPart_sets ⟨forest.descends, forest.socket⟩ (lt_size_of_composite? composite) _ _ bound
  exact ⟨res, c', bound, fansOut_of_sets composite stand sets⟩

/-- The height of `thing` goes to a surface, which takes no literal, and to a displacement. -/
def heightened : Document where
  nodeDefs := [
    { name := "ND_add", node := "add", type := "float"
      inputs := [{ name := "in1", type := "float" }, { name := "in2", type := "float" }] },
    { name := "ND_surface", node := "surface", type := "surfaceshader"
      inputs := [{ name := "bsdf", type := "BSDF" }] },
    { name := "ND_displacement", node := "displacement", type := "displacementshader"
      inputs := [{ name := "displacement", type := "float" }] },
    { name := "ND_thing", node := "thing", type := "float", nodeGraph := some "NG_thing"
      inputs := [{ name := "height", type := "float", value := some "0.5" }] }]
  nodeGraphs := [
    { name := "NG_thing", nodeDef := some "ND_thing"
      nodes := [
        { name := "sum", category := "add", type := "float"
          inputs := [
            { name := "in1", type := "float", nodeName := some "bump" },
            { name := "in2", type := "float", nodeName := some "s" }] },
        { name := "s", category := "surface", type := "surfaceshader"
          inputs := [{ name := "bsdf", type := "BSDF", interfaceName := some "height" }] },
        { name := "bump", category := "displacement", type := "displacementshader"
          inputs := [{ name := "displacement", type := "float", interfaceName := some "height" }] }]
      outputs := [{ name := "out", type := "float", nodeName := some "sum" }] }]
  nodes := [{ name := "x", category := "thing", type := "float" }]
  outputs := [{ name := "o", type := "float", nodeName := some "x" }]

/-- The surface refuses a literal, but the displacement after it gets its new constant. -/
theorem binding_fans_out_heightened :
    let i : Input := { name := "height", type := "float" }
    let E : Env Recorder := Loader.env {} heightened {} (fun _ => false) Recorder.renderer
    ∃ o k res c', Loader.load {} heightened {} (fun _ => false) Recorder.renderer {} = some o ∧
      (replay o.journal).composite? 1 = some k ∧ (socketsOf o.journal 1 i).map (·.child) = ["s", "bump"] ∧
      bindInput 1 i (.literal "0.25" "float") E { system := o.system, assembly := replay o.journal } =
        .ok (res, c') ∧
      FansOut E (.literal "0.25" "float") 1 k i (socketsOf o.journal 1 i)
        { system := o.system, assembly := replay o.journal } res c' ∧
      res ≠ .ok () ∧ created c'.journal = [⟨4⟩] ∧ deleted c'.journal = [⟨2⟩] := by
  intro i E
  have evaluated : ((Loader.load {} heightened {} (fun _ => false) Recorder.renderer {}).bind fun o =>
      (bindInput 1 i (.literal "0.25" "float") E { system := o.system, assembly := replay o.journal }).toOption.map fun bound =>
        (((replay o.journal).composite? 1).isSome, (socketsOf o.journal 1 i).map (·.child), bound.1.isOk,
          created bound.2.journal, deleted bound.2.journal)) =
      some (true, ["s", "bump"], false, [⟨4⟩], [⟨2⟩]) := by decide +kernel
  obtain ⟨o, loaded, evaluated⟩ := Option.bind_eq_some_iff.1 evaluated
  obtain ⟨res, c', bound, same⟩ := exists_of_toOption evaluated
  obtain ⟨there, same⟩ := Prod.mk.inj same
  obtain ⟨sockets, same⟩ := Prod.mk.inj same
  obtain ⟨refused, same⟩ := Prod.mk.inj same
  obtain ⟨made, gone⟩ := Prod.mk.inj same
  obtain ⟨k, composite⟩ := Option.isSome_iff_exists.1 there
  obtain ⟨res', c₁, bound', fans⟩ := binding_fans_out {} heightened {} (fun _ => false) Recorder.renderer {}
    o.journal [] (trace_eq_append_nil loaded) E { system := o.system, assembly := replay o.journal } rfl 1 k
    composite i (.literal "0.25" "float")
  cases bound.symm.trans bound'
  refine ⟨o, k, res, c', loaded, composite, sockets, bound, fans, ?_, made, gone⟩
  rintro rfl
  cases refused

end MaterialGraph
