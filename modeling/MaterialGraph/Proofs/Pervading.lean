import MaterialGraph.Proofs.Draining

/-!
# Overrides reach what they govern

Whenever a request for a child has been answered, the inputs of all children that were built for it are governed: what
the node gives for an input is bound wherever the input leads, through all definitions on the way.

* `unanswered?` : how many requests for children stand open after some events.
* `Answered` : a request is answered at the end of a journal.
* `Answers` : from one context to another a composite has been asked for a child. It leaves the inputs of new children
  governed (`Answers.tended`).
* `Attends` : each answer on the way from one context to another is that to a request since an earlier context.
* `Run.attends`, `Works.attends` : runs attend, since each request among them does.
* `answers_of_trace`, `governed_of_load` : what holds at each answer of a load.
-/

namespace MaterialGraph

set_option autoImplicit false

open Build Assembly

variable {s : Recorder} {C : Catalog} {W : Env Recorder} {c c₁ c' : Context Recorder} {t : Port}
  {j before during : List Event} {id : PartId} {name : String} {made : Bool}
  {first last : Event}

/-! ## Answers -/

namespace Event

def isRequest : Event → Bool
  | edited (.began (.child _ _)) => true
  | _ => false

/-- Whether an event is the answer to a request for a child. -/
def isAnswer : Event → Bool
  | edited (.ended (.child _ _) _) => true
  | _ => false

/-- The child to which an answer belongs, and whether it is given. -/
def answer? : Event → Option (PartId × String × Bool)
  | edited (.ended (.child id name) made) => some (id, name, made)
  | _ => none

theorem answer?_eq_some {e : Event} {id : PartId} {name : String} {made : Bool}
    (answers : e.answer? = some (id, name, made)) : e = .edited (.ended (.child id name) made) := by
  unfold answer? at answers
  split at answers
  · cases answers
    rfl
  · cases answers

theorem not_isRequest_of_isAnswer {e : Event} (answer : e.isAnswer) : ¬ e.isRequest := by
  unfold isAnswer at answer
  split at answer
  · exact Bool.false_ne_true
  · cases answer

theorem length_track (e : Event) (giving : List PartId) : (e.track giving).length =
    if e.isRequest then giving.length + 1 else if e.isAnswer then giving.length - 1 else giving.length := by
  cases e with
  | edited x =>
      cases x with
      | began task => cases task <;> rfl
      | ended task => cases task <;> first | exact List.length_tail | rfl
      | _ => rfl
  | _ => rfl

theorem IsRoutine.not_isAnswer {e : Event} (routine : e.IsRoutine) : ¬ e.isAnswer := by
  unfold isAnswer
  split
  · exact routine.elim
  · exact Bool.false_ne_true

end Event

/-- How many requests for children stand open after some events, in order, if so many did before. There is no such
number if one of them is answered that stood open before all of these. -/
def unanswered? (n : Nat) : List Event → Option Nat
  | [] => some n
  | e :: j =>
    if e.isRequest then unanswered? (n + 1) j
    else if e.isAnswer then if n = 0 then none else unanswered? (n - 1) j
    else unanswered? n j

/-- As long as requests stand open, at least so many composites are giving a child. -/
theorem le_underway_of_unanswered? {n m b : Nat} (length : (underway j).length = b + n)
    (closes : unanswered? n during = some m) :
    (underway (during.reverse ++ j)).length = b + m ∧
      ∀ k, j <:+ k → k <:+ during.reverse ++ j → b ≤ (underway k).length := by
  induction during generalizing j n with
  | nil =>
      cases closes
      refine ⟨length, fun k above below => ?_⟩
      rw [above.eq_of_length (Nat.le_antisymm above.length_le below.length_le)] at length
      exact Nat.le.intro length.symm
  | cons e during ih =>
      rw [List.reverse_cons, List.append_assoc, List.singleton_append]
      -- what the first event leads to, and where the others go on from
      have step {n' : Nat} (length' : (underway (e :: j)).length = b + n') (closes' : unanswered? n' during = some m) :
          (underway (during.reverse ++ e :: j)).length = b + m ∧
            ∀ k, j <:+ k → k <:+ during.reverse ++ e :: j → b ≤ (underway k).length := by
        obtain ⟨ended, between⟩ := ih length' closes'
        refine ⟨ended, fun k above below => ?_⟩
        rcases List.suffix_or_suffix_of_suffix below (List.suffix_append during.reverse (e :: j)) with less | more
        · rcases List.suffix_cons_iff.1 less with rfl | less
          · exact Nat.le.intro length'.symm
          · rw [less.eq_of_length (Nat.le_antisymm less.length_le above.length_le)]
            exact Nat.le.intro length.symm
        · exact between k more below
      have next : (underway (e :: j)).length = _ := e.length_track (underway j)
      rw [unanswered?] at closes
      by_cases request : e.isRequest
      · rw [if_pos request] at next closes
        exact step (next.trans (by rw [length, Nat.add_assoc])) closes
      · rw [if_neg request] at next closes
        by_cases answer : e.isAnswer
        · rw [if_pos answer] at next closes
          split at closes
          · cases closes
          · next some => exact step (next.trans (by rw [length, Nat.add_sub_assoc (Nat.pos_of_ne_zero some)])) closes
        · rw [if_neg answer] at next closes
          exact step (next.trans length) closes

/-- A request that is answered at the end of a journal, which lists the latest event first, stood open all the time
since then. -/
structure Answered (j before : List Event) : Prop where
  answer : ∃ e rest, j = e :: rest ∧ e.isAnswer ∧ before <:+ rest
  open' : ∀ k, before <:+ k → k <:+ j → k ≠ before → k ≠ j → (underway j).length < (underway k).length

theorem answered_of_unanswered? (asks : first.isRequest) (answers : last.isAnswer)
    (closes : unanswered? 0 during = some 0) : Answered (last :: (during.reverse ++ first :: before)) before := by
  have begun : (underway (first :: before)).length = (underway before).length + 1 := by
    rw [underway_cons, Event.length_track, if_pos asks]
  obtain ⟨ended, between⟩ := le_underway_of_unanswered? (b := (underway before).length + 1) (n := 0) begun closes
  have depth : (underway (last :: (during.reverse ++ first :: before))).length = (underway before).length := by
    rw [underway_cons, Event.length_track, if_neg (Event.not_isRequest_of_isAnswer answers), if_pos answers, ended]
    rfl
  refine ⟨⟨_, _, rfl, answers, (List.suffix_cons _ _).trans (List.suffix_append _ _)⟩, fun k above below old new => ?_⟩
  have inner : k <:+ during.reverse ++ first :: before := (List.suffix_cons_iff.1 below).resolve_left new
  rw [depth]
  refine between k ?_ inner
  rcases List.suffix_or_suffix_of_suffix (List.suffix_append during.reverse _) inner with since | until'
  · exact since
  · rcases List.suffix_cons_iff.1 until' with rfl | until'
    · exact List.suffix_rfl
    · exact (old (until'.eq_of_length (Nat.le_antisymm until'.length_le above.length_le))).elim

/-- The beginning of a journal up to an event, with an earlier event in it. -/
theorem take_eq_of_getElem? {i k : Nat} (begins : j[i]? = some first) (ends : j[k]? = some last) (before : i < k) :
    j.take (k + 1) = j.take i ++ first :: ((j.take k).drop (i + 1) ++ [last]) := by
  have begun : (j.take k).take (i + 1) = j.take i ++ [first] := by
    rw [List.take_take, Nat.min_eq_left before, List.take_add_one, begins, Option.toList_some]
  calc j.take (k + 1) = j.take k ++ [last] := by rw [List.take_add_one, ends, Option.toList_some]
    _ = (j.take k).take (i + 1) ++ (j.take k).drop (i + 1) ++ [last] := by rw [List.take_append_drop]
    _ = j.take i ++ first :: ((j.take k).drop (i + 1) ++ [last]) := by rw [begun]; simp

/-! ## Attending -/

/-- The context at the end of a journal, which lists the latest event first. -/
def Recorder.told (s : Recorder) (j : List Event) : Context Recorder where
  system := renderer.follow s j.reverse
  assembly := replay j.reverse
  journal := j

theorem Recorder.told_journal (keeps : Keeps s c) : s.told c.journal = c := by
  obtain ⟨system, assembly, journal⟩ := c
  rw [Recorder.told, keeps.system, keeps.assembly]

/-- From one context to another a composite has been asked for a child. If nothing has been built, no child is new. -/
structure Answers (W : Env Recorder) (s : Recorder) (id : PartId) (c c' : Context Recorder) : Prop where
  proper : Proper s W.catalog c
  run : Run W .asking id c.assembly.size c c'
  asks : (∃ name, Requests W id name c c') ∨ ∀ p name, c'.assembly.child? p name = c.assembly.child? p name

/-- Each answer on the way from one context to another is that to a request since an earlier context. -/
def Attends (W : Env Recorder) (s : Recorder) (c c' : Context Recorder) : Prop :=
  ∀ j id name made, .edited (.ended (.child id name) made) :: j <:+ c'.journal →
    ¬ .edited (.ended (.child id name) made) :: j <:+ c.journal →
    ∃ c₀, Answers W s id c₀ (s.told (.edited (.ended (.child id name) made) :: j)) ∧
      ∀ before, Answered (.edited (.ended (.child id name) made) :: j) before → c₀.journal <:+ before

namespace Attends

/-- Where there are no answers, there is nothing to attend to. -/
theorem of_only (only : Only (fun e => ¬ e.isAnswer) c c') : Attends W s c c' :=
  fun _ _ _ _ here old => (old (only.suffix_of_cons here fun none => none rfl)).elim

theorem refl (c : Context Recorder) : Attends W s c c := .of_only (.refl c)

theorem routine (routine : Routine c c') : Attends W s c c' := .of_only (routine.mono fun _ he => he.not_isAnswer)

theorem leafwork (leafwork : Leafwork c c') : Attends W s c c' := .routine leafwork.routine

theorem trans (h₁ : Attends W s c c₁) (h₂ : Attends W s c₁ c') : Attends W s c c' := by
  intro j id name made here old
  by_cases first : .edited (.ended (.child id name) made) :: j <:+ c₁.journal
  · exact h₁ j id name made first old
  · exact h₂ j id name made here first

theorem edit {e : Edit} (h : Attends W s c c₁) (other : ¬ (Event.edited e).isAnswer) : Attends W s c (c₁.edit e) :=
  h.trans (.of_only (.event rfl other))

theorem begun {e : Edit} (h : Attends W s (c.edit e) c') (other : ¬ (Event.edited e).isAnswer) : Attends W s c c' :=
  (Attends.of_only (.event rfl other)).trans h

/-- A request ends, and it is that to which its answer is given. -/
theorem request (inner : Attends W s (c.edit (.began (.child id name))) c₁) (suffix : c.journal <:+ c₁.journal)
    (depth : underway (c₁.edit (.ended (.child id name) made)).journal = underway c.journal)
    (later : Keeps s (c₁.edit (.ended (.child id name) made)))
    (answers : Answers W s id c (c₁.edit (.ended (.child id name) made))) :
    Attends W s c (c₁.edit (.ended (.child id name) made)) := by
  intro j id' name' made' here old
  rcases List.suffix_cons_iff.1 here with same | here
  · obtain ⟨event, rfl⟩ := List.cons.inj same
    cases event
    have told : s.told (.edited (.ended (.child id name) made) :: c₁.journal) = c₁.edit (.ended (.child id name) made) :=
      Recorder.told_journal later
    rw [told]
    refine ⟨c, answers, fun before answered => ?_⟩
    -- the request that ends here began when the journal was that of the context
    obtain ⟨e, rest, same, -, above⟩ := answered.answer
    obtain ⟨-, rfl⟩ := List.cons.inj same
    rcases List.suffix_or_suffix_of_suffix suffix above with less | more
    · exact less
    · by_cases same : c.journal = before
      · exact same ▸ List.suffix_rfl
      · have open' := answered.open' c.journal more (suffix.trans (List.suffix_cons _ _)) same fun whole => by
          have length := congrArg List.length whole
          have le := suffix.length_le
          rw [List.length_cons] at length
          omega
        exact absurd (congrArg List.length depth) (Nat.ne_of_lt open')
  · exact inner.begun Bool.false_ne_true j id' name' made' here old

end Attends

namespace Build

theorem Requests.tended (recording : W.renderer = Recorder.renderer) (clear : W.catalog.IsClear)
    (proper : Proper s W.catalog c) (asks : Requests W id name c c') : Tended W.catalog c.assembly.size [] [] c' := by
  obtain ⟨sub, p, res, way, built⟩ := asks
  cases way with
  | childPart fuel => exact (diligent_childPart recording clear fuel p id name c proper).of_eq built
  | part => exact (diligent_part recording clear p id name c proper).of_eq built

/-- A part that is no composite gives no children. -/
theorem Requests.known (asks : Requests W id name c c') :
    (∃ k, c.assembly.composite? id = some k) ∨ ∀ p n, c'.assembly.child? p n = c.assembly.child? p n := by
  cases composite : c.assembly.composite? id with
  | some k => exact .inl ⟨k, rfl⟩
  | none =>
      right
      have nothing (fuel : Nat) (p : Place) : After (childPart fuel id name) (W.at p) c fun _ c' =>
          ∀ q n, c'.assembly.child? q n = c.assembly.child? q n := by
        cases fuel with
        | zero => exact after_outOfFuel
        | succ fuel =>
            have begun : (c.edit (.began (.child id name))).assembly.composite? id = none := composite
            rw [childPart, childPartWith, after_asTask, after_bind, after_assembly, begun]
            exact after_pure.2 fun _ _ => rfl
      obtain ⟨sub, p, res, way, built⟩ := asks
      cases way with
      | childPart fuel => exact (nothing fuel p).of_eq built
      | part =>
          have whole : After (part id name) (W.at p) c fun _ c' =>
              ∀ q n, c'.assembly.child? q n = c.assembly.child? q n := by
            rw [part, after_bind, after_catalog]
            exact nothing _ p
          exact whole.of_eq built

theorem Barren.attends (recording : W.renderer = Recorder.renderer) (barren : Barren Recorder.renderer c c')
    (proper : Proper s W.catalog c) : Attends W s c c' := by
  induction barren with
  | refl => exact .refl _
  | trans first _ ih₁ ih₂ => exact (ih₁ proper).trans (ih₂ (proper.barren first))
  | message _ message => exact .leafwork (.message message)
  | @task c c₁ id name inner ih =>
      have begun := proper.mark (.began (.child id name))
      have all : Barren Recorder.renderer c (c₁.edit (.ended (.child id name) false)) := .task inner
      exact (ih begun).request ((List.suffix_cons _ _).trans inner.steps.moves.suffix) all.underway_eq
        (all.keeps proper.keeps) ⟨proper, .barren (recording ▸ all), .inr fun _ _ => all.child? _ _⟩
  | failed _ creation => exact .leafwork creation.leafwork
  | composite => exact .edit (.refl _) Bool.false_ne_true

theorem Run.attends {ph : Phase} {n : Nat} (recording : W.renderer = Recorder.renderer)
    (run : Run W ph id n c c') (proper : Proper s W.catalog c) : Attends W s c c' := by
  -- a request and what happens in it
  have request {c c₁ : Context Recorder} {id : PartId} {name : String} {success : Bool}
      (inner : Run W .giving id c.assembly.size (c.edit (.began (.child id name))) c₁)
      (whole : Run W .asking id c.assembly.size c (c₁.edit (.ended (.child id name) success)))
      (asks : Requests W id name c (c₁.edit (.ended (.child id name) success))) (proper : Proper s W.catalog c)
      (ih : Attends W s (c.edit (.began (.child id name))) c₁) :
      Attends W s c (c₁.edit (.ended (.child id name) success)) :=
    ih.request ((List.suffix_cons _ _).trans inner.suffix) whole.underway_eq (proper.run recording whole).keeps
      ⟨proper, whole, .inl ⟨name, asks⟩⟩
  induction run with
  | refl => exact .refl _
  | trans first _ ih₁ ih₂ => exact (ih₁ proper).trans (ih₂ (proper.run recording first))
  | message _ message => exact .leafwork (.message message)
  | barren barren => exact (recording ▸ barren).attends recording proper
  | task inner asks ih => exact request inner (.task inner asks) asks proper (ih (proper.mark (.began _)))
  | leafChild _ _ _ makes => exact .edit (.edit (.leafwork makes.leafwork) Bool.false_ne_true) Bool.false_ne_true
  | compositeChild _ _ _ _ _ _ ih => exact .edit ((ih (proper.composite _)).begun Bool.false_ne_true) Bool.false_ne_true
  | socket => exact .edit (.refl _) Bool.false_ne_true
  | literal _ binds => exact .leafwork binds.leafwork
  | inside _ _ _ _ connects => exact .edit (.leafwork connects.leafwork) Bool.false_ne_true
  | insideFailed _ _ _ _ connects => exact .leafwork connects.leafwork
  | geometry _ creation => exact .edit (.edit (.leafwork creation.leafwork) Bool.false_ne_true) Bool.false_ne_true
  | top => exact .edit (.edit (.refl _) Bool.false_ne_true) Bool.false_ne_true
  | viaTop _ inner asks ih => exact request inner (.task inner asks) asks proper (ih (proper.mark (.began _)))
  | viaGraph starts _ ih =>
      exact .edit ((Attends.routine starts.routine).trans (ih (proper.starts starts))) Bool.false_ne_true
  | outside _ _ connects => exact .leafwork connects.leafwork

/-! ## Loads -/

theorem Works.attends {harvest harvest' : Harvest} (recording : W.renderer = Recorder.renderer)
    (works : Works W harvest c harvest' c') (proper : Proper s W.catalog c) : Attends W s c c' := by
  induction works with
  | refl | more | root => exact .refl _
  | trans first _ ih₁ ih₂ => exact (ih₁ proper).trans (ih₂ (proper.works recording first))
  | mark _ _ _ routine => exact .edit (.refl _) routine.not_isAnswer
  | inside _ _ run => exact run.attends recording proper
  | elsewhere _ run => exact (run .asking 0 0).attends recording proper
  | own _ inner => exact (inner.attends recording (proper.composite _)).begun Bool.false_ne_true
  | wrap _ _ creation => exact .edit (.leafwork creation.leafwork) Bool.false_ne_true
  | wrapFailed _ _ creation => exact .leafwork creation.leafwork

theorem Loads.attends {result : LoadResult} (recording : W.renderer = Recorder.renderer)
    (loads : Loads W c result c') (proper : Proper s W.catalog c) : Attends W s c c' := by
  cases loads with
  | nothing => exact .leafwork (.message (.warning _))
  | unresolved works =>
      exact (works.attends recording proper).trans
        ((Attends.leafwork (.message (.warning _))).trans (.leafwork (leafwork_releasedAll _ _)))
  | handOver works _ message =>
      exact (works.attends recording proper).trans
        ((Attends.leafwork (leafwork_releasedAll _ _)).trans (.leafwork (.message message)))

theorem Halfway.attends (recording : W.renderer = Recorder.renderer) (half : Halfway W c c')
    (proper : Proper s W.catalog c) : Attends W s c c' := by
  have step {c c' : Context Recorder} (proper : Proper s W.catalog c) (first : Advance W c c') :
      Attends W s c c' ∧ Proper s W.catalog c' := by
    cases first with
    | run run => exact ⟨run.attends recording proper, proper.run recording run⟩
    | works works => exact ⟨works.attends recording proper, proper.works recording works⟩
    | began t => exact ⟨.edit (.refl _) Bool.false_ne_true, proper.mark (.began t)⟩
    | composite g => exact ⟨.edit (.refl _) Bool.false_ne_true, proper.composite g⟩
    | starts starts => exact ⟨.routine starts.routine, proper.starts starts⟩
  induction half using Relation.ReflTransGen.head_induction_on with
  | refl => exact .refl _
  | head first _ ih =>
      obtain ⟨attends, proper₁⟩ := step proper first
      exact attends.trans (ih proper₁)

end Build

/-- When a request has been answered, no inputs wait of children that are new since it began. -/
theorem Answers.tended (answers : Answers W s id c c') (recording : W.renderer = Recorder.renderer)
    (clear : W.catalog.IsClear) : Tended W.catalog c.assembly.size [] [] c' := by
  rcases answers.asks with ⟨name, asks⟩ | same
  · exact asks.tended recording clear answers.proper
  · exact .of_same answers.proper.orderly same

/-- When a request has been answered, the inputs of all children are governed that are new since it began. -/
theorem Answers.governed (answers : Answers W s id c c') (recording : W.renderer = Recorder.renderer)
    (clear : W.catalog.IsClear) (there : t.IsIn W.catalog c'.assembly) (new : c.assembly.size ≤ t.part) :
    Governed c' t := (answers.tended recording clear).governed there new List.not_mem_nil

/-- If there are new children, a composite has been asked in earnest. -/
theorem Answers.requests {p x : PartId} {n : String} (answers : Answers W s id c c')
    (child : c'.assembly.child? p n = some x) (new : c.assembly.size ≤ x) : ∃ name, Requests W id name c c' := by
  refine answers.asks.resolve_right fun same => ?_
  rw [same] at child
  exact absurd (answers.proper.orderly.forest.descends child).2 (Nat.not_lt.2 new)

/-- The inputs of new children of the composite that has been asked are given. -/
theorem Answers.given {g : Graph} (answers : Answers W s id c c') (recording : W.renderer = Recorder.renderer)
    (clear : W.catalog.IsClear) (there : t.IsOf W.catalog c'.assembly id g) (new : c.assembly.size ≤ t.part) :
    IsGiven W.catalog g c' t := by
  have tended := answers.tended recording clear
  obtain ⟨name, asks⟩ := answers.requests there.child new
  rcases asks.known with ⟨k, composite⟩ | same
  · exact tended.given there (lt_size_of_composite? composite) new List.not_mem_nil
  · have child := there.child
    rw [same] at child
    exact absurd (answers.proper.orderly.forest.descends child).2 (Nat.not_lt.2 new)

/-- What has been answered in a load has been asked for, as far as the events tell that lead from one to the other. -/
theorem answers_of_trace {l : Loader} {d : Document} {options : LoadOptions} {fileExists : String → Bool}
    {upto later : List Event} (split : l.trace d options fileExists Recorder.renderer s = upto ++ later)
    (answered : upto = before ++ first :: (during ++ [.edited (.ended (.child id name) made)])) (asks : first.isRequest)
    (closes : unanswered? 0 during = some 0) :
    ∃ c, Answers (l.env d options fileExists Recorder.renderer) s id c (s.told upto.reverse) ∧
      c.assembly.size ≤ (replay before).size := by
  obtain ⟨c, traces, trace⟩ := exists_traces l d options fileExists Recorder.renderer s
  have attends := traces.elim (fun ⟨_, loads⟩ => loads.attends (s := s) rfl (.start s))
    fun half => half.attends (s := s) rfl (.start s)
  have latest : upto.reverse =
      .edited (.ended (.child id name) made) :: (during.reverse ++ first :: before.reverse) := by
    rw [answered]
    simp
  have here : upto.reverse <:+ c.journal := by
    rw [← List.reverse_reverse c.journal, ← trace, split, List.reverse_append]
    exact List.suffix_append _ _
  rw [latest] at here ⊢
  obtain ⟨c₀, answers, above⟩ := attends _ id name made here fun empty => by cases List.suffix_nil.1 empty
  have since := above before.reverse (answered_of_unanswered? asks rfl closes)
  refine ⟨c₀, answers, ?_⟩
  rw [← answers.proper.keeps.assembly, ← List.reverse_reverse before]
  exact size_replay_of_suffix since

/-- Whenever a request for a child has been answered, in a load that returns or in one that does not, the inputs of all
children are governed that have been built for it: a literal that a node gives for an input, and nothing else, is bound
at every input of a mapped leaf to which that input leads, and so is the node to which the input has been connected. -/
theorem governed_of_load {l : Loader} {d : Document} {options : LoadOptions} {fileExists : String → Bool}
    {upto later : List Event} (split : l.trace d options fileExists Recorder.renderer s = upto ++ later)
    (clear : (l.catalog d).IsClear) (answered : upto = before ++ first :: (during ++ [last]))
    (asks : first.isRequest) (answers : last.isAnswer) (closes : unanswered? 0 during = some 0)
    (there : t.IsIn (l.catalog d) (replay upto)) (new : (replay before).size ≤ t.part) :
    Governed (s.told upto.reverse) t := by
  obtain ⟨id, name, made, rfl⟩ : ∃ id name made, last = .edited (.ended (.child id name) made) := by
    unfold Event.isAnswer at answers
    split at answers
    · exact ⟨_, _, _, rfl⟩
    · cases answers
  obtain ⟨c, reply, size⟩ := answers_of_trace split answered asks closes
  have assembly : (s.told upto.reverse).assembly = replay upto := congrArg replay (List.reverse_reverse upto)
  refine reply.governed rfl clear ?_ (Nat.le_trans size new)
  rw [assembly]
  exact there

/-- An `outer` stands for an `inner`, which stands for an `add`. -/
def relayed.outer : NodeDef where
  name := "ND_outer"
  node := "outer"
  type := "float"
  inputs := [{ name := "a", type := "float" }, { name := "b", type := "float" }]

/-- An `outer` that gets a literal for one input and a node for the other. -/
def relayed.user : Node where
  name := "u"
  category := "outer"
  type := "float"
  inputs := [{ name := "a", type := "float", value := some "0.25" }, { name := "b", type := "float", nodeName := some "k" }]

def relayed : Document where
  nodeDefs := [
    { name := "ND_add", node := "add", type := "float"
      inputs := [{ name := "in1", type := "float" }, { name := "in2", type := "float" }] },
    { name := "ND_inner", node := "inner", type := "float"
      inputs := [{ name := "x", type := "float" }, { name := "y", type := "float" }] },
    relayed.outer]
  nodeGraphs := [
    { name := "NG_inner", nodeDef := some "ND_inner"
      nodes := [
        { name := "m", category := "add", type := "float"
          inputs := [{ name := "in1", type := "float", interfaceName := some "x" },
            { name := "in2", type := "float", interfaceName := some "y" }] }]
      outputs := [{ name := "o", type := "float", nodeName := some "m" }] },
    { name := "NG_outer", nodeDef := some "ND_outer"
      nodes := [
        { name := "i", category := "inner", type := "float"
          inputs := [{ name := "x", type := "float", interfaceName := some "a" },
            { name := "y", type := "float", interfaceName := some "b" }] }]
      outputs := [{ name := "o", type := "float", nodeName := some "i" }] }]
  nodes := [{ name := "k", category := "add", type := "float" }, relayed.user]
  outputs := [{ name := "o", type := "float", nodeName := some "u" }]

/-- What is to be seen of a load of it when the node has been given. -/
structure relayed.View where
  marks : Option Bool × Option Bool
  unanswered : Option Nat
  size : Nat
  graph : Option Graph
  child : Option PartId
  bound : Option (Option Bound × Option Bound)
deriving DecidableEq

def relayed.view (j : List Event) : relayed.View where
  marks := (j[4]?.map Event.isRequest, j[55]?.map Event.isAnswer)
  unanswered := unanswered? 0 ((j.take 55).drop 5)
  size := (replay (j.take 4)).size
  graph := ((replay (j.take 56)).composite? 0).map (·.graph)
  child := (replay (j.take 56)).child? 0 "u"
  bound := ((Recorder.told {} (j.take 56).reverse).system.node? ⟨0⟩).map fun n => (n.bound .color0, n.bound .color1)

/-- The literal and the node come to the inputs of the `add`. -/
theorem governed_of_load_relayed :
    ∃ o, Loader.load {} relayed {} (fun _ => false) Recorder.renderer {} = some o ∧
      (∀ i ∈ relayed.outer.inputs, Governed (Recorder.told {} (o.journal.take 56).reverse) ⟨1, relayed.user, i⟩) ∧
      (relayed.view o.journal).bound =
        some ((Literal.floats? "0.25" "float").map .floats, some (.node ⟨1⟩)) := by
  have evaluated : (Loader.load {} relayed {} (fun _ => false) Recorder.renderer {}).map
      (fun o => relayed.view o.journal) = some {
        marks := (some true, some true)
        unanswered := some 0
        size := 1
        graph := some (.document relayed)
        child := some 1
        bound := some ((Literal.floats? "0.25" "float").map .floats, some (.node ⟨1⟩)) } := by
    decide +kernel
  obtain ⟨o, loaded, view⟩ := Option.map_eq_some_iff.1 evaluated
  have see {α : Type} (f : relayed.View → α) := congrArg f view
  obtain ⟨⟨first, fourth, asks⟩, ⟨last, latest, answers⟩⟩ :=
    (Prod.mk.inj (see (·.marks))).imp Option.map_eq_some_iff.1 Option.map_eq_some_iff.1
  have answered := take_eq_of_getElem? fourth latest (by decide)
  have clear : (Loader.catalog {} relayed).IsClear := Catalog.isClear_of_nodeDefs (by decide +kernel)
  obtain ⟨k, composite, graph⟩ := Option.map_eq_some_iff.1 (see (·.graph))
  have has : (Graph.document relayed).node? relayed.user.name = some relayed.user := by decide +kernel
  have definition : (Loader.catalog {} relayed).nodeDefOf? relayed.user = some relayed.outer := by decide +kernel
  have split : Loader.trace {} relayed {} (fun _ => false) Recorder.renderer {} =
      o.journal.take 56 ++ o.journal.drop 56 :=
    (trace_of_load loaded).trans (List.take_append_drop 56 o.journal).symm
  refine ⟨o, loaded, fun i mem => ?_, see (·.bound)⟩
  refine governed_of_load split clear answered asks answers (see (·.unanswered)) ?_ (Nat.le_of_eq (see (·.size)))
  exact ⟨0, .document relayed, ⟨k, composite, graph⟩, has, see (·.child), relayed.outer, definition, mem⟩

end MaterialGraph
