import MaterialGraph.Proofs.Course.Loads
import MaterialGraph.Proofs.Journal
import MaterialGraph.Proofs.Replay
import MaterialGraph.Proofs.Wiring

/-!
# What graphs share

The part for the top level, the parts for geometric properties and those for free-standing graphs are kept, each under
its name, for whoever asks next. What is kept once stays (`caches_write_once`), although the construction of one part
can ask for all others.

* `Cache` : where a part is kept; `Assembly.cached?` and `kept` read it off an assembly and off a journal.
* `standing` : how far a free-standing graph is, by a journal.
* `Caching` : what a course does to all this. It is a relation on journals, and its invariants are read off them.
* `UnderConstruction` : the nodes behind outputs of a free-standing graph are being built.
-/

namespace MaterialGraph

set_option autoImplicit false

open Build Assembly

variable {σ : Type} {r : Renderer σ} {s : σ} {c c' : Context σ} {j j' : List Event}

/-! ## What is kept -/

/-- Where a part is kept that graphs share. -/
inductive Cache where
  | top
  | geometry (name : String)
  | freeStanding (name : String)
deriving DecidableEq

variable {k : Cache}

def Assembly.cached? (a : Assembly) : Cache → Option PartId
  | .top => a.top
  | .geometry name => a.geometry[name]?
  | .freeStanding name => a.freeStanding[name]?.map Construction.id

namespace Event

/-- The part that an event puts somewhere, and where. -/
def cached? : Event → Option (Cache × PartId)
  | edited (.top x) => some (.top, x)
  | edited (.geometry name x) => some (.geometry name, x)
  | edited (.freeStanding name state) => some (.freeStanding name, state.id)
  | _ => none

def keeps? (k : Cache) (e : Event) : Option PartId := e.cached?.bind fun (k', x) => if k' = k then some x else none

/-- How far a free-standing graph is after an event that tells. -/
def stands? (name : String) : Event → Option Construction
  | edited (.freeStanding n state) => if n = name then some state else none
  | _ => none

theorem keeps?_of_cached? {e : Event} (h : e.cached? = none) : e.keeps? k = none := by
  rw [keeps?, h]
  rfl

theorem stands?_of_cached? {e : Event} (h : e.cached? = none) (name : String) : e.stands? name = none := by
  unfold stands?
  split
  · cases h
  · rfl

theorem IsLeafwork.cached? {e : Event} (h : e.IsLeafwork) : e.cached? = none := by
  unfold Event.cached?
  split
  · exact h.elim
  · exact h.elim
  · exact h.elim
  · rfl

end Event

/-- The parts that are put at one place, the latest first. -/
def kept (k : Cache) (j : List Event) : List PartId := j.filterMap (Event.keeps? k)

/-- How far a free-standing graph is at the end of a journal, which lists the latest event first. -/
def standing (name : String) (j : List Event) : Option Construction := j.findSome? (Event.stands? name)

theorem kept_cons (k : Cache) (e : Event) (j : List Event) : kept k (e :: j) = (e.keeps? k).toList ++ kept k j := by
  rw [kept, List.filterMap_cons]
  cases e.keeps? k <;> rfl

theorem kept_append_of_uncached {new : List Event} (uncached : ∀ e ∈ new, e.cached? = none) (j : List Event) :
    kept k (new ++ j) = kept k j := by
  have none : new.filterMap (Event.keeps? k) = [] :=
    List.filterMap_eq_nil_iff.2 fun e he => Event.keeps?_of_cached? (uncached e he)
  rw [kept, List.filterMap_append, none, List.nil_append, kept]

theorem standing_noted (name : String) (state : Construction) (j : List Event) :
    standing name (.edited (.freeStanding name state) :: j) = some state := by
  rw [standing, List.findSome?_cons, Event.stands?, if_pos rfl]

theorem standing_append {new : List Event} {name : String} (silent : ∀ e ∈ new, e.stands? name = none)
    (j : List Event) : standing name (new ++ j) = standing name j := by
  rw [standing, List.findSome?_append, List.findSome?_eq_none_iff.2 silent, Option.none_or, standing]

/-- An edit that keeps no part leaves the kept ones. -/
theorem cached?_replayOn {a : Assembly} {e : Event} : (e.replayOn a).cached? k = (e.keeps? k).or (a.cached? k) := by
  have insert {α : Type} (m : NameMap α) (name n : String) (v : α) :
      (m.insert name v)[n]? = (if name = n then some v else none).or m[n]? := by
    rw [Std.TreeMap.getElem?_insert]
    simp only [Std.LawfulEqCmp.compare_eq_iff_eq]
    split <;> rfl
  cases e with
  | edited x =>
      cases x with
      | geometry name x =>
          cases k with
          | geometry n =>
              change (a.geometry.insert name x)[n]? =
                (if Cache.geometry name = Cache.geometry n then some x else none).or _
              simp only [insert, Cache.geometry.injEq]
              rfl
          | _ => rfl
      | freeStanding name state =>
          cases k with
          | freeStanding n =>
              change ((a.freeStanding.insert name state)[n]?).map _ =
                (if Cache.freeStanding name = Cache.freeStanding n then some state.id else none).or _
              simp only [insert, Cache.freeStanding.injEq]
              split <;> rfl
          | _ => rfl
      | _ => cases k <;> rfl
  | _ => rfl

theorem cached?_replay (k : Cache) (j : List Event) : (replay j.reverse).cached? k = (kept k j).head? := by
  induction j with
  | nil => cases k <;> rfl
  | cons e j ih =>
      rw [replay_reverse_cons, cached?_replayOn, ih, kept_cons]
      cases e.keeps? k <;> rfl

theorem freeStanding_replay (name : String) (j : List Event) :
    (replay j.reverse).freeStanding[name]? = standing name j := by
  induction j with
  | nil => simp [replay, standing]
  | cons e j ih =>
      rw [replay_reverse_cons, standing, List.findSome?_cons]
      cases e with
      | edited x =>
          cases x with
          | freeStanding n state =>
              change ((replay j.reverse).freeStanding.insert n state)[name]? = _
              rw [Std.TreeMap.getElem?_insert, ih, Event.stands?]
              simp only [Std.LawfulEqCmp.compare_eq_iff_eq]
              split <;> rfl
          | _ => exact ih
      | _ => exact ih

/-! ## Moments -/

/-- A context is what its journal tells of an assembly and a renderer. -/
structure IsMoment (r : Renderer σ) (s : σ) (c : Context σ) : Prop where
  assembly : replay c.journal.reverse = c.assembly
  system : r.follow s c.journal.reverse = c.system

theorem isMoment_start (s : σ) : IsMoment r s { system := s } := ⟨rfl, rfl⟩

theorem IsMoment.event {e : Event} (now : IsMoment r s c) (journal : c'.journal = e :: c.journal)
    (assembly : c'.assembly = e.replayOn c.assembly) (system : c'.system = e.answerOn r c.system) :
    IsMoment r s c' where
  assembly := by rw [journal, replay_reverse_cons, now.assembly, assembly]
  system := by rw [journal, follow_reverse_cons, now.system, system]

theorem Build.Moves.isMoment (h : Moves r c c') (now : IsMoment r s c) : IsMoment r s c' := by
  induction h with
  | refl => exact now
  | tail _ move ih =>
      cases move with
      | message message => cases message <;> exact ih.event rfl rfl rfl
      | edit | create | act => exact ih.event rfl rfl rfl

theorem IsMoment.cached? (now : IsMoment r s c) (k : Cache) : c.assembly.cached? k = (kept k c.journal).head? := by
  rw [← now.assembly, cached?_replay]

theorem IsMoment.kept_eq_nil (now : IsMoment r s c) (absent : c.assembly.cached? k = none) : kept k c.journal = [] :=
  List.head?_eq_none_iff.1 ((now.cached? k).symm.trans absent)

theorem IsMoment.standing (now : IsMoment r s c) (name : String) :
    c.assembly.freeStanding[name]? = standing name c.journal := by
  rw [← now.assembly, freeStanding_replay]

/-! ## What a course does to what is kept -/

/-- What is kept changes only so: a part for the top level or a geometric property is kept where none was, and a
free-standing graph is built by a call. -/
inductive Caching (W : Env σ) (s : σ) : List Event → List Event → Prop
  | quiet {j new : List Event} (uncached : ∀ e ∈ new, e.cached? = none) : Caching W s j (new ++ j)
  | trans {j j₁ j₂ : List Event} (first : Caching W s j j₁) (second : Caching W s j₁ j₂) : Caching W s j j₂
  | first {j : List Event} {e : Event} {k : Cache} {x : PartId} (puts : e.cached? = some (k, x))
      (plain : ∀ name, k ≠ .freeStanding name) (absent : kept k j = []) : Caching W s j (e :: j)
  | graph {c c₁ c₂ : Context σ} {g : NodeGraph} {x : PartId} {required : List Output} {p : Place} {sub : SubPart σ}
      {res : Result Unit} (now : IsMoment W.renderer s c) (starts : Starts g c x c₁) (way : IsWay sub)
      (builds : buildOutputs sub x required (W.at p) c₁ = .ok (res, c₂)) (inner : Caching W s c₁.journal c₂.journal) :
      Caching W s c.journal (.edited (.freeStanding g.name (.built x)) :: c₂.journal)

variable {W : Env σ}

theorem Caching.event {e : Event} (j : List Event) (h : e.cached? = none) : Caching W s j (e :: j) := by
  have only : ∀ e' ∈ [e], e'.cached? = none := fun e' he' => by rwa [List.mem_singleton.1 he']
  exact .quiet only

theorem Build.Only.caching (h : Only (fun e => e.cached? = none) c c') : Caching W s c.journal c'.journal := by
  obtain ⟨new, journal, uncached⟩ := h
  rw [journal]
  exact .quiet uncached

theorem Build.Leafwork.caching (h : Leafwork c c') : Caching W s c.journal c'.journal :=
  Only.caching (h.mono fun _ he => he.cached?)

/-- A course does nothing else to what is kept. -/
theorem Build.Course.caching {sc : Scene} {p : Place} (h : Course W sc p c c') (now : IsMoment W.renderer s c) :
    Caching W s c.journal c'.journal := by
  have added {c : Context σ} (q : Part) (now : IsMoment W.renderer s c) : IsMoment W.renderer s (c.edit (.add q)) :=
    now.event rfl rfl rfl
  have inside {c c₁ : Context σ} {q : Part} (h : Caching W s (c.edit (.add q)).journal c₁.journal) :
      Caching W s c.journal c₁.journal := (Caching.event c.journal rfl).trans h
  induction h with
  | refl => exact Only.caching (.refl _)
  | trans first _ ih₁ ih₂ => exact (ih₁ now).trans (ih₂ (first.steps.moves.isMoment now))
  | message _ message => exact (Leafwork.message message).caching
  | mark _ mark => cases mark <;> exact .event _ rfl
  | @task id g name p c c₁ success inner ih =>
      have begun : IsMoment W.renderer s (c.edit (.began (.child id name))) := now.event rfl rfl rfl
      exact ((Caching.event c.journal rfl).trans (ih begun)).trans (.event _ rfl)
  | refused _ creation => exact creation.leafwork.caching
  | wrap _ creation => exact creation.leafwork.caching.trans (.event _ rfl)
  | own _ _ _ ih | expansion _ _ _ _ ih => exact inside (ih (added _ now))
  | shared _ _ _ ih | settle _ _ ih | overriding _ _ _ _ _ ih | search _ _ _ _ _ ih | output _ _ ih | give _ _ ih
    | input _ _ _ _ _ _ ih | follow _ _ ih | viaTop _ _ _ ih => exact ih now
  | leafChild _ _ _ _ makes => exact (makes.leafwork.caching.trans (.event _ rfl)).trans (.event _ rfl)
  | compositeChild _ _ _ ih => exact (inside (ih (added _ now))).trans (.event _ rfl)
  | socket | cycle | busy => exact .event _ rfl
  | link _ _ _ _ _ _ connected => exact (after_connect _ _ connected).leafwork.caching.trans (.event _ rfl)
  | unlinked _ _ _ _ _ connected | connection _ _ connected => exact (after_connect _ _ connected).leafwork.caching
  | literal _ _ bound => exact (after_bindInput _ _ bound).leafwork.caching
  | @geometry sc p c c₁ g l quantity absent creation =>
      refine (creation.leafwork.caching.trans (.event _ rfl)).trans (.first rfl nofun ?_)
      refine IsMoment.kept_eq_nil (c := c₁.edit (.add (.leaf l))) (added _ (creation.moves.isMoment now)) ?_
      change c₁.assembly.geometry[g.name]? = none
      rw [creation.assembly]
      exact absent
  | @top sc p c absent =>
      exact (Caching.event c.journal rfl).trans
        (.first rfl nofun (IsMoment.kept_eq_nil (c := c.edit (.add _)) (added _ now) absent))
  | viaGraph _ starts _ way call inner ih =>
      exact .graph now starts way call (ih (starts.steps.moves.isMoment now))

theorem Caching.suffix (h : Caching W s j j') : j <:+ j' := by
  induction h with
  | quiet => exact List.suffix_append _ _
  | trans _ _ ih₁ ih₂ => exact ih₁.trans ih₂
  | first => exact List.suffix_cons _ _
  | graph _ starts _ _ _ ih =>
      exact ((starts.steps (r := W.renderer)).moves.suffix.trans ih).trans (List.suffix_cons _ _)

/-! ## What is kept stays -/

/-- All parts that are put at one place are the same. -/
def IsConstant (l : List PartId) : Prop := ∀ x ∈ l, ∀ y ∈ l, x = y

theorem isConstant_cons {x : PartId} {l : List PartId} (same : ∀ y ∈ l, y = x) : IsConstant (x :: l) := by
  have all : ∀ y ∈ x :: l, y = x := List.forall_mem_cons.2 ⟨rfl, same⟩
  exact fun y hy z hz => (all y hy).trans (all z hz).symm

theorem IsConstant.eq_of_head? {x : PartId} {l : List PartId} (h : IsConstant l)
    (head : ∀ y, l.head? = some y → y = x) : ∀ y ∈ l, y = x := by
  intro y hy
  cases l with
  | nil => cases hy
  | cons z l => exact (h y hy z List.mem_cons_self).trans (head z rfl)

theorem keeps?_of_puts {e : Event} {k' : Cache} {x : PartId} (puts : e.cached? = some (k', x)) (k : Cache) :
    e.keeps? k = if k' = k then some x else none := by
  rw [Event.keeps?, puts]
  rfl

theorem keeps?_freeStanding (k : Cache) (name : String) (state : Construction) :
    Event.keeps? k (.edited (.freeStanding name state)) = if Cache.freeStanding name = k then some state.id else none :=
  keeps?_of_puts rfl k

/-- When a free-standing graph is started, this is noted in the end, and nothing else is. -/
theorem journal_starts {g : NodeGraph} {x : PartId} (starts : Starts g c x c') :
    ∃ new, c'.journal = .edited (.freeStanding g.name (.building x)) :: (new ++ c.journal) ∧
      ∀ e ∈ new, e.cached? = none := by
  cases starts with
  | first =>
      refine ⟨[.edited (.add (.composite { graph := .named g }))], rfl, fun e he => ?_⟩
      rw [List.mem_singleton.1 he]
      rfl
  | again => exact ⟨[], rfl, fun e he => absurd he List.not_mem_nil⟩

theorem kept_starts {g : NodeGraph} {x : PartId} (starts : Starts g c x c') (k : Cache) :
    kept k c'.journal = (if Cache.freeStanding g.name = k then some x else none).toList ++ kept k c.journal := by
  obtain ⟨new, journal, uncached⟩ := journal_starts starts
  rw [journal, kept_cons, keeps?_freeStanding, kept_append_of_uncached uncached]
  rfl

/-- The part of a free-standing graph that is started is the one that is kept, if there is one. -/
theorem eq_of_starts {g : NodeGraph} {x y : PartId} (now : IsMoment r s c) (starts : Starts g c x c')
    (known : (kept (.freeStanding g.name) c.journal).head? = some y) : y = x := by
  rw [← now.cached?, cached?, Option.map_eq_some_iff] at known
  obtain ⟨state, known, rfl⟩ := known
  cases starts with
  | first absent =>
      rw [absent] at known
      cases known
  | again built =>
      rw [built] at known
      cases known
      rfl

/-- What is kept at one place is always the same part. -/
theorem Caching.isConstant (h : Caching W s j j') (constant : IsConstant (kept k j)) : IsConstant (kept k j') := by
  induction h with
  | quiet uncached => rwa [kept_append_of_uncached uncached]
  | trans _ _ ih₁ ih₂ => exact ih₂ (ih₁ constant)
  | @first j e k' x puts plain absent =>
      rw [kept_cons, keeps?_of_puts puts]
      split
      · next same =>
        subst same
        rw [absent]
        exact isConstant_cons fun y hy => absurd hy List.not_mem_nil
      · exact constant
  | @graph c c₁ c₂ g x required p sub res now starts way builds inner ih =>
      have first := kept_starts starts k
      rw [kept_cons, keeps?_freeStanding]
      split at first
      · next same =>
        subst same
        have constant₁ : IsConstant (kept (.freeStanding g.name) c₁.journal) := by
          rw [first]
          exact isConstant_cons (constant.eq_of_head? fun y known => eq_of_starts now starts known)
        rw [if_pos rfl]
        -- The part has been put there at the start, so it is the same in all that has been put there since.
        have there : x ∈ kept (.freeStanding g.name) c₂.journal :=
          (inner.suffix.filterMap _).subset (show x ∈ kept _ c₁.journal from first ▸ List.mem_cons_self)
        exact isConstant_cons fun y hy => ih constant₁ y hy x there
      · next other =>
        rw [if_neg other]
        exact ih (first ▸ constant)

/-- A part for the top level or a geometric property is kept once. -/
theorem Caching.length_le (h : Caching W s j j') (plain : ∀ name, k ≠ .freeStanding name)
    (once : (kept k j).length ≤ 1) : (kept k j').length ≤ 1 := by
  induction h with
  | quiet uncached => rwa [kept_append_of_uncached uncached]
  | trans _ _ ih₁ ih₂ => exact ih₂ (ih₁ once)
  | @first j e k' x puts plain absent =>
      rw [kept_cons, keeps?_of_puts puts]
      split
      · next same =>
        subst same
        rw [absent]
        exact Nat.le_refl 1
      · exact once
  | @graph c c₁ c₂ g x required p sub res now starts way builds inner ih =>
      rw [kept_cons, keeps?_freeStanding, if_neg (plain g.name).symm]
      refine ih ?_
      rw [kept_starts starts, if_neg (plain g.name).symm]
      exact once

/-! ## Graphs under construction -/

/-- A free-standing graph is being built at a moment of a load, in a part: there is a call for outputs of the graph that
has noted the graph as under construction, and has come to build the nodes behind them; it has not yet ended. All
journals list the latest event first. -/
inductive UnderConstruction (W : Env σ) (s : σ) (j : List Event) (name : String) (x : PartId) (m : List Event) : Prop
  | call {g : NodeGraph} {sub : SubPart σ} {p : Place} {required : List Output} {c c₁ c₂ : Context σ}
      {res : Result Unit} (named : g.name = name) (now : IsMoment W.renderer s c) (starts : Starts g c x c₁)
      (request : freeStandingGraph sub g required (W.at p) c =
        .ok (res.map fun () => x, c₂.edit (.freeStanding name (.built x)))) (way : IsWay sub)
      (builds : buildOutputs sub x required (W.at p) c₁ = .ok (res, c₂)) (since : c₁.journal <:+ m)
      (upTo : m <:+ c₂.journal) (ends : (c₂.edit (.freeStanding name (.built x))).journal <:+ j) :
      UnderConstruction W s j name x m

theorem UnderConstruction.mono {name : String} {x : PartId} {m : List Event} (h : UnderConstruction W s j name x m)
    (more : j <:+ j') : UnderConstruction W s j' name x m := by
  obtain ⟨named, now, starts, request, way, builds, since, upTo, ends⟩ := h
  exact .call named now starts request way builds since upTo (ends.trans more)

/-- A request that may start builds the nodes behind the outputs. -/
theorem freeStandingGraph_of_starts {g : NodeGraph} {sub : SubPart σ} {p : Place} {required : List Output}
    {c₁ c₂ : Context σ} {x : PartId} {res : Result Unit} (starts : Starts g c x c₁)
    (builds : buildOutputs sub x required (W.at p) c₁ = .ok (res, c₂)) :
    freeStandingGraph sub g required (W.at p) c =
      .ok (res.map fun () => x, c₂.edit (.freeStanding g.name (.built x))) := by
  have noted (c : Context σ) :
      (edit (.freeStanding g.name (.building x)) : Build σ Unit) (W.at p) c =
        .ok ((), c.edit (.freeStanding g.name (.building x))) := rfl
  cases starts with
  | first absent =>
      have added : (addComposite (.named g) : Build σ PartId) (W.at p) c =
        .ok (c.assembly.size, c.edit (.add (.composite { graph := .named g }))) := rfl
      rw [freeStandingGraph, bind_apply _ assembly_apply, absent]
      dsimp only
      rw [bind_apply _ added, bind_apply _ (noted _)]
      exact bind_apply _ builds
  | again built =>
      rw [freeStandingGraph, bind_apply _ assembly_apply, built]
      dsimp only
      refine (bind_apply _ (pure_apply x)).trans ?_
      rw [bind_apply _ (noted c)]
      exact bind_apply _ builds

/-- A request for outputs of a graph that is being built is refused, and changes nothing. -/
theorem freeStandingGraph_of_building {g : NodeGraph} {x : PartId}
    (building : c.assembly.freeStanding[g.name]? = some (.building x)) (sub : SubPart σ) (required : List Output)
    (E : Env σ) : freeStandingGraph sub g required E c =
      .ok (.error (.cycle ("node graph " ++ g.name ++ " depends on itself")), c) := by
  rw [freeStandingGraph, bind_apply _ assembly_apply, building]
  rfl

abbrev Passing (name : String) : Context σ → Context σ → Prop := Only fun e => e.stands? name = none

theorem Passing.edit {name : String} (c : Context σ) (e : Edit) (h : Event.stands? name (.edited e) = none) :
    Passing name c (c.edit e) := .event rfl h

theorem Passing.work {name : String} (h : Leafwork c c') : Passing name c c' :=
  h.mono fun _ he => Event.stands?_of_cached? he.cached? name

theorem Build.Barren.passing {name : String} (h : Barren r c c') : Passing name c c' := by
  induction h with
  | refl => exact .refl _
  | trans _ _ ih₁ ih₂ => exact ih₁.trans ih₂
  | message _ message => exact .work (.message message)
  | task _ ih => exact (Passing.edit _ _ rfl).trans (ih.trans (Passing.edit _ _ rfl))
  | failed _ creation => exact .work creation.leafwork
  | composite => exact .edit _ _ rfl

theorem stands?_freeStanding_of_ne {name n : String} (other : n ≠ name) (state : Construction) :
    Event.stands? name (.edited (.freeStanding n state)) = none := if_neg other

theorem Build.Starts.passing {g : NodeGraph} {x : PartId} {name : String} (h : Starts g c x c')
    (other : g.name ≠ name) : Passing name c c' := by
  cases h with
  | first => exact (Passing.edit _ (.add _) rfl).trans (Passing.edit _ _ (stands?_freeStanding_of_ne other _))
  | again => exact .edit _ _ (stands?_freeStanding_of_ne other _)

theorem Build.Starts.freeStanding {g : NodeGraph} {x : PartId} {name : String} (h : Starts g c x c')
    (other : g.name ≠ name) : c'.assembly.freeStanding[name]? = c.assembly.freeStanding[name]? := by
  cases h <;> exact getElem?_insert_of_ne other

/-- A graph that is being built cannot be started. -/
theorem Build.Starts.idle {g : NodeGraph} {x y : PartId} (h : Starts g c x c') :
    c.assembly.freeStanding[g.name]? ≠ some (.building y) := by
  cases h with
  | first absent => rw [absent]; nofun
  | again built => rw [built]; nofun

/-- While a graph is under construction, nothing else is noted of it. -/
theorem Build.Run.passing {ph : Phase} {id : PartId} {n : Nat} {name : String} {x : PartId} (h : Run W ph id n c c')
    (building : c.assembly.freeStanding[name]? = some (.building x)) : Passing name c c' := by
  induction h with
  | refl => exact .refl _
  | trans first _ ih₁ ih₂ => exact (ih₁ building).trans (ih₂ (first.freeStanding building))
  | message _ message => exact .work (.message message)
  | barren barren => exact barren.passing
  | task _ _ ih | viaTop _ _ _ ih =>
      exact (Passing.edit _ (.began _) rfl).trans ((ih building).trans (Passing.edit _ _ rfl))
  | leafChild _ _ _ makes =>
      exact ((Passing.work makes.leafwork).trans (Passing.edit _ _ rfl)).trans (Passing.edit _ _ rfl)
  | compositeChild _ _ _ _ _ _ ih =>
      exact (Passing.edit _ (.add _) rfl).trans ((ih building).trans (Passing.edit _ _ rfl))
  | socket => exact .edit _ _ rfl
  | literal _ binds => exact .work binds.leafwork
  | inside _ _ _ _ connects => exact (Passing.work connects.leafwork).trans (Passing.edit _ _ rfl)
  | insideFailed _ _ _ _ connects | outside _ _ connects => exact .work connects.leafwork
  | geometry _ creation =>
      exact ((Passing.work creation.leafwork).trans (Passing.edit _ _ rfl)).trans (Passing.edit _ _ rfl)
  | top => exact (Passing.edit _ _ rfl).trans (Passing.edit _ _ rfl)
  | @viaGraph ph id y n c c₁ c₂ g starts inner ih =>
      have other : g.name ≠ name := fun same => starts.idle (same ▸ building)
      exact ((starts.passing other).trans (ih ((starts.freeStanding other).trans building))).trans
        (Passing.edit _ _ (stands?_freeStanding_of_ne other _))

/-- Between two moments that agree, and with nothing noted in between, a graph stands as it did. -/
theorem standing_between {name : String} {m new : List Event} (passing : ∀ e ∈ new, e.stands? name = none)
    (since : j <:+ m) (upTo : m <:+ new ++ j) : standing name m = standing name j := by
  obtain ⟨u, rfl⟩ := since
  have part : u <:+ new := List.suffix_append_self_iff.1 upTo
  exact standing_append (fun e he => passing e (part.subset he)) j

/-- Once a graph has been started, it is under construction until the nodes behind its outputs are built. -/
theorem standing_of_builds {g : NodeGraph} {x : PartId} {sub : SubPart σ} {p : Place} {required : List Output}
    {c₁ c₂ : Context σ} {res : Result Unit} {m : List Event} (starts : Starts g c x c₁) (way : IsWay sub)
    (builds : buildOutputs sub x required (W.at p) c₁ = .ok (res, c₂)) (since : c₁.journal <:+ m)
    (upTo : m <:+ c₂.journal) : standing g.name m = some (.building x) := by
  have building : c₁.assembly.freeStanding[g.name]? = some (.building x) := by
    cases starts <;> exact Std.TreeMap.getElem?_insert_self
  have run : Run W .asking x 0 c₁ c₂ := (after_buildOutputs way.sound _ _ builds).1
  obtain ⟨new, journal, passing⟩ := run.passing building
  rw [journal] at upTo
  rw [standing_between passing since upTo]
  obtain ⟨_, journal, -⟩ := journal_starts starts
  rw [journal, standing_noted]

theorem stands?_of_plain {e : Event} {k : Cache} {x : PartId} (puts : e.cached? = some (k, x))
    (plain : ∀ name, k ≠ .freeStanding name) (name : String) : e.stands? name = none := by
  unfold Event.stands?
  split
  · cases puts
    exact (plain _ rfl).elim
  · rfl

/-- If a free-standing graph is not under construction at first, it is not in the end, and only calls have it under
construction in between. -/
def Controlled (W : Env σ) (s : σ) (name : String) (j j' : List Event) : Prop :=
  (∀ x, standing name j ≠ some (.building x)) → (∀ x, standing name j' ≠ some (.building x)) ∧
    ∀ m x, j <:+ m → m <:+ j' → standing name m = some (.building x) → UnderConstruction W s j' name x m

theorem Controlled.trans {name : String} {j₁ j₂ : List Event} (first : Controlled W s name j j₁)
    (second : Controlled W s name j₁ j₂) (later : j₁ <:+ j₂) : Controlled W s name j j₂ := by
  intro idle
  obtain ⟨idle₁, calls₁⟩ := first idle
  obtain ⟨idle₂, calls₂⟩ := second idle₁
  refine ⟨idle₂, fun m x since upTo building => ?_⟩
  rcases List.suffix_or_suffix_of_suffix upTo later with before | after
  · exact (calls₁ m x since before building).mono later
  · exact calls₂ m x after upTo building

/-- While nothing is noted of a graph, it stands as it did. -/
theorem controlled_of_passing {name : String} {new : List Event} (passing : ∀ e ∈ new, e.stands? name = none) :
    Controlled W s name j (new ++ j) := by
  intro idle
  refine ⟨fun x => ?_, fun m x since upTo building => ?_⟩
  · rw [standing_append passing]
    exact idle x
  · rw [standing_between passing since upTo] at building
    exact (idle x building).elim

theorem controlled_event {name : String} {e : Event} (passing : e.stands? name = none) (j : List Event) :
    Controlled W s name j (e :: j) := by
  have only : ∀ e' ∈ [e], e'.stands? name = none := fun e' he' => by rwa [List.mem_singleton.1 he']
  exact controlled_of_passing only

/-- The call that builds a graph controls it. -/
theorem controlled_call {g : NodeGraph} {x : PartId} {sub : SubPart σ} {p : Place} {required : List Output}
    {c₁ c₂ : Context σ} {res : Result Unit} (now : IsMoment W.renderer s c) (starts : Starts g c x c₁)
    (way : IsWay sub) (builds : buildOutputs sub x required (W.at p) c₁ = .ok (res, c₂))
    (later : c₁.journal <:+ c₂.journal) :
    Controlled W s g.name c.journal (.edited (.freeStanding g.name (.built x)) :: c₂.journal) := by
  intro idle
  refine ⟨fun y => ?_, fun m y since upTo building => ?_⟩
  · rw [standing_noted]
    nofun
  · have request : UnderConstruction W s (c₂.edit (.freeStanding g.name (.built x))).journal g.name x c₁.journal :=
      .call rfl now starts (freeStandingGraph_of_starts starts builds) way builds List.suffix_rfl later List.suffix_rfl
    obtain ⟨new, journal, uncached⟩ := journal_starts starts
    rcases List.suffix_cons_iff.1 upTo with rfl | upTo
    · rw [standing_noted] at building
      cases building
    · rcases List.suffix_or_suffix_of_suffix upTo later with early | late
      · -- Before the call has come to build the nodes, the graph is not under construction but at the last moment.
        rw [journal] at early
        rcases List.suffix_cons_iff.1 early with rfl | early
        · rw [standing_noted] at building
          cases building
          rwa [journal] at request
        · rw [standing_between (fun e he => Event.stands?_of_cached? (uncached e he) _) since early] at building
          exact (idle y building).elim
      · cases (standing_of_builds starts way builds late upTo).symm.trans building
        exact .call rfl now starts (freeStandingGraph_of_starts starts builds) way builds late upTo List.suffix_rfl

/-- Only a call has a graph under construction, and only until it ends. -/
theorem Caching.controlled (h : Caching W s j j') (name : String) : Controlled W s name j j' := by
  induction h with
  | quiet uncached => exact controlled_of_passing fun e he => Event.stands?_of_cached? (uncached e he) name
  | trans _ second ih₁ ih₂ => exact ih₁.trans ih₂ second.suffix
  | first puts plain => exact controlled_event (stands?_of_plain puts plain name) _
  | @graph c c₁ c₂ g x required p sub res now starts way builds inner ih =>
      rcases Decidable.em (g.name = name) with rfl | other
      · exact controlled_call now starts way builds inner.suffix
      · obtain ⟨new, journal, passing⟩ := starts.passing other
        rw [journal] at ih
        have begun : Controlled W s name c.journal (new ++ c.journal) := controlled_of_passing passing
        exact (begun.trans ih (journal ▸ inner.suffix)).trans
          (controlled_event (stands?_freeStanding_of_ne other _) _) (List.suffix_cons _ _)

/-! ## Calls -/

theorem Build.Acts.handles {h : Handle} {settings : List (InputKey × Bound)}
    (acts : Acts r (IsSetting h settings) c c') :
    created c'.journal = created c.journal ∧ deleted c'.journal = deleted c.journal := by
  induction acts with
  | refl => exact ⟨rfl, rfl⟩
  | act _ setting ih =>
      rw [Context.acted_journal, created_acted, deleted_acted (by cases setting <;> nofun)]
      exact ih

/-- How an attempt to make a leaf ends. What is created for a leaf that cannot be set up is deleted again. -/
structure Attempts (c : Context σ) (res : Result Leaf) (c' : Context σ) : Prop where
  assembly : c'.assembly = c.assembly
  work : Leafwork c c'
  made : ∀ l, res = .ok l → ∃ h, l.hold.handle? = some h ∧ created c'.journal = h :: created c.journal ∧
    deleted c'.journal = deleted c.journal
  failed : ∀ e, res = .error e → ∃ hs, created c'.journal = hs ++ created c.journal ∧
    deleted c'.journal = hs ++ deleted c.journal

theorem Build.CreatesLeaf.attempts {type : NodeType} {role : Role} {settings : List (InputKey × Bound)}
    {name : Option String} {res : Result Leaf} (h : CreatesLeaf r type role settings name c res c') :
    Attempts c res c' := by
  refine ⟨h.assembly, h.leafwork, ?_, ?_⟩
  · rintro l rfl
    cases h with
    | done reply setup =>
        have handles := setup.settings.handles
        rw [Context.created_journal, reply] at handles
        exact ⟨_, rfl, handles⟩
  · rintro e rfl
    cases h with
    | refused reply =>
        rw [Context.created_journal, reply]
        exact ⟨[], rfl, rfl⟩
    | @undone h c₁ e reply setup =>
        have handles := setup.settings.handles
        rw [Context.created_journal, reply] at handles
        refine ⟨[h], ?_, congrArg (h :: ·) handles.2⟩
        rw [Context.acted_journal, created_acted, handles.1]
        rfl

/-- How it ends to ask for the part of a geometric property. The node that is created for a part is noted with the part
for the name of the property; if there is no part, what has been created has been deleted. -/
structure LooksUp (g : GeomPropDef) (c : Context σ) (res : Option PartId) (c' : Context σ) : Prop where
  known : ∀ x, c.assembly.geometry[g.name]? = some x → res = some x ∧ c' = c
  made : c.assembly.geometry[g.name]? = none → ∀ x, res = some x → ∃ h, Holds c'.assembly x h ∧
    created c'.journal = h :: created c.journal ∧ deleted c'.journal = deleted c.journal ∧
      kept (.geometry g.name) c'.journal = x :: kept (.geometry g.name) c.journal
  failed : c.assembly.geometry[g.name]? = none → res = none → c'.assembly = c.assembly ∧
    kept (.geometry g.name) c'.journal = kept (.geometry g.name) c.journal ∧
      ∃ hs, created c'.journal = hs ++ created c.journal ∧ deleted c'.journal = hs ++ deleted c.journal

variable {E : Env σ} {g : GeomPropDef}

theorem Build.Leafwork.kept_eq (h : Leafwork c c') (k : Cache) : kept k c'.journal = kept k c.journal := by
  obtain ⟨new, journal, work⟩ := h
  rw [journal, kept_append_of_uncached fun e he => (work e he).cached?]

/-- A lookup of a property that is not known ends as the attempt to create its leaf does. -/
theorem Attempts.looksUp {e : LoadError} {w : Warning} (absent : c.assembly.geometry[g.name]? = none)
    (h : Attempts c (.error e) c') : LooksUp g c none (c'.push (.warned w)) := by
  have unknown (x : PartId) : c.assembly.geometry[g.name]? ≠ some x := by rw [absent]; nofun
  obtain ⟨hs, made, gone⟩ := h.failed e rfl
  have same := h.work.kept_eq (.geometry g.name)
  exact ⟨fun x known => (unknown x known).elim, nofun, fun _ _ => ⟨h.assembly, same, hs, made, gone⟩⟩

theorem Attempts.looksUp_made {l : Leaf} (absent : c.assembly.geometry[g.name]? = none)
    (h : Attempts c (.ok l) c') : LooksUp g c (some c'.assembly.size)
      ((c'.edit (.add (.leaf l))).edit (.geometry g.name c'.assembly.size)) := by
  have unknown (x : PartId) : c.assembly.geometry[g.name]? ≠ some x := by rw [absent]; nofun
  obtain ⟨h₁, hold, made, gone⟩ := h.made l rfl
  have same := h.work.kept_eq (.geometry g.name)
  refine ⟨fun x known => (unknown x known).elim, ?_, nofun⟩
  rintro - _ ⟨⟩
  refine ⟨h₁, ?_, made, gone, ?_⟩
  · change ((c'.assembly.apply (.add (.leaf l))).leaf? c'.assembly.size).bind _ = some h₁
    rw [leaf?_add_leaf, if_pos rfl]
    exact hold
  · rw [Context.edit_journal, kept_cons, keeps?_of_puts rfl, if_pos rfl, ← same]
    rfl

theorem LooksUp.warned {w : Warning} {res : Option PartId} (h : LooksUp g (c.push (.warned w)) res c')
    (absent : c.assembly.geometry[g.name]? = none) : LooksUp g c res c' := by
  refine ⟨fun x known => ?_, h.made, h.failed⟩
  rw [absent] at known
  cases known

theorem looksUp_geomPart : After (geomPart g) E c (LooksUp g c) := by
  refine consults_geomPart.mono fun res c' consults => ?_
  induction consults with
  | @known c x there =>
      refine ⟨fun y hy => ⟨there.symm.trans hy, rfl⟩, fun absent => ?_, fun absent => ?_⟩
      · rw [there] at absent
        cases absent
      · rw [there] at absent
        cases absent
  | strange absent _ ih => exact ih.warned absent
  | @unread c e absent _ =>
      have attempts : Attempts c (.error e) c := ⟨rfl, .refl _, by rintro _ ⟨⟩, fun _ _ => ⟨[], rfl, rfl⟩⟩
      exact attempts.looksUp absent
  | failed absent call => exact (after_createLeaf.of_eq call).attempts.looksUp absent
  | made absent call => exact (after_createLeaf.of_eq call).attempts.looksUp_made absent

/-! ## Requests for what is built -/

/-- Nothing is asked of the renderer, and nothing is built. -/
structure Idles (c c' : Context σ) : Prop where
  assembly : c'.assembly.parts = c.assembly.parts
  system : c'.system = c.system
  only : Only (fun e => ¬ e.IsCall) c c'

theorem Idles.refl (c : Context σ) : Idles c c := ⟨rfl, rfl, .refl c⟩

theorem Idles.trans {c₁ : Context σ} (first : Idles c c₁) (second : Idles c₁ c') : Idles c c' :=
  ⟨second.assembly.trans first.assembly, second.system.trans first.system, first.only.trans second.only⟩

theorem Idles.push (c : Context σ) {e : Event} (other : ¬ e.IsCall) : Idles c (c.push e) := ⟨rfl, rfl, .event rfl other⟩

theorem Idles.asked (id : PartId) (name : String) (c : Context σ) : Idles c (asked id name c) := by
  have begins : ¬ (Event.edited (.began (.child id name))).IsCall := not_false
  have ends : ¬ (Event.edited (.ended (.child id name) true)).IsCall := not_false
  have first : Only (fun e => ¬ e.IsCall) c (c.edit (.began (.child id name))) := .event rfl begins
  exact ⟨rfl, rfl, first.trans (.event rfl ends)⟩

theorem Idles.note {name : String} (c : Context σ) (state : Construction) :
    Idles c (c.edit (.freeStanding name state)) := by
  have notes : ¬ (Event.edited (.freeStanding name state)).IsCall := not_false
  exact ⟨rfl, rfl, .event rfl notes⟩

theorem Idles.child? (h : Idles c c') (id : PartId) (name : String) :
    c'.assembly.child? id name = c.assembly.child? id name := by
  refine child?_congr ?_ name
  rw [composite?, composite?, part?, part?, h.assembly]

/-- A way to get parts that gives what is there: one that is not out of fuel. -/
inductive IsReady : SubPart σ → Prop
  | childPart (fuel : Nat) : IsReady (Build.childPart (fuel + 1))
  | part : IsReady Build.part

theorem IsReady.gives {sub : SubPart σ} (ready : IsReady sub) {id x : PartId} {name : String}
    (there : c.assembly.child? id name = some x) : sub id name E c = .ok (some x, Build.asked id name c) := by
  cases ready with
  | childPart fuel => exact childPart_of_child there fuel
  | part => exact part_of_child there

theorem mapM_buildOutput_of_built {sub : SubPart σ} (ready : IsReady sub) {x : PartId} {g : Graph}
    {required : List Output} (built : ∀ o ∈ required, (c.assembly.child? x (o.nodeName?.getD "")).isSome) :
    ∃ c', required.mapM (buildOutput sub x g) E c = .ok (required.map fun _ => true, c') ∧ Idles c c' := by
  induction required generalizing c with
  | nil => exact ⟨c, by rw [List.mapM_nil]; rfl, .refl c⟩
  | cons o required ih =>
      rw [List.forall_mem_cons] at built
      obtain ⟨y, there⟩ := Option.isSome_iff_exists.1 built.1
      let c₁ := c.push (.remarked E.margin (.output o.name (o.nodeName?.getD "")))
      have there₁ : c₁.assembly.child? x (o.nodeName?.getD "") = some y := there
      have idles : Idles c (Build.asked x (o.nodeName?.getD "") c₁) :=
        (Idles.push (e := .remarked _ _) c not_false).trans (.asked x _ c₁)
      have one : buildOutput sub x g o E c = .ok (true, Build.asked x (o.nodeName?.getD "") c₁) := by
        have said : (remark (.output o.name (o.nodeName?.getD "")) : Build σ Unit) E c = .ok ((), c₁) := rfl
        rw [buildOutput, bind_apply _ said, bind_apply _ (ready.gives there₁)]
        rfl
      obtain ⟨c₂, rest, more⟩ := ih (c := Build.asked x (o.nodeName?.getD "") c₁) fun o' ho' => by
        rw [idles.child?]
        exact built.2 o' ho'
      refine ⟨c₂, ?_, idles.trans more⟩
      rw [List.mapM_cons, bind_apply _ one, bind_apply _ rest]
      rfl

theorem buildOutputs_of_built {sub : SubPart σ} (ready : IsReady sub) {x : PartId} {k : Composite}
    (composite : c.assembly.composite? x = some k) {required : List Output}
    (built : ∀ o ∈ required, (c.assembly.child? x (o.nodeName?.getD "")).isSome) :
    ∃ res c', buildOutputs sub x required E c = .ok (res, c') ∧ Idles c c' ∧ (required ≠ [] → res = .ok ()) := by
  let c₁ := c.push (.remarked E.margin (.graph k.graph.name))
  obtain ⟨c₂, all, idles⟩ := mapM_buildOutput_of_built (c := c₁) (g := k.graph)
    (E := E.at (E.place.enter .graph k.graph.filePrefix)) ready built
  refine ⟨if (required.map fun _ => true).contains true then .ok () else .error (.noOutput k.graph.name), c₂, ?_,
    (Idles.push (e := .remarked _ _) c not_false).trans idles, fun nonempty => ?_⟩
  · have said : (remark (.graph k.graph.name) : Build σ Unit) E c = .ok ((), c₁) := rfl
    rw [buildOutputs, bind_apply _ assembly_apply, composite]
    dsimp only
    rw [bind_apply _ said]
    change (required.mapM (buildOutput sub x k.graph) >>= fun built => _) (E.at _) c₁ = _
    rw [bind_apply _ all]
    rfl
  · cases required with
    | nil => exact (nonempty rfl).elim
    | cons o required => rfl

/-- To ask for outputs whose nodes are all built asks nothing of the renderer. -/
theorem freeStandingGraph_of_built {sub : SubPart σ} (ready : IsReady sub) {h : NodeGraph} {x : PartId}
    {k : Composite} (known : c.assembly.freeStanding[h.name]? = some (.built x))
    (composite : c.assembly.composite? x = some k) {required : List Output}
    (built : ∀ o ∈ required, (c.assembly.child? x (o.nodeName?.getD "")).isSome) :
    ∃ res c', freeStandingGraph sub h required E c = .ok (res, c') ∧ Idles c c' ∧
      (required ≠ [] → res = .ok x) := by
  obtain ⟨res, c₂, builds, idles, done⟩ := buildOutputs_of_built (E := E)
    (c := c.edit (.freeStanding h.name (.building x))) ready composite built
  refine ⟨res.map fun () => x, c₂.edit (.freeStanding h.name (.built x)), ?_,
    ((Idles.note c _).trans idles).trans (.note c₂ _), fun nonempty => ?_⟩
  · exact freeStandingGraph_of_starts (W := E) (p := E.place) (.again known) builds
  · rw [done nonempty]
    rfl

/-! ## Loads -/

/-- What is shared in a load is kept once and for all, by the journal of the load. -/
structure WriteOnce (W : Env σ) (s : σ) (j : List Event) : Prop where
  /-- What is kept at a moment is kept at all later ones. -/
  fixed : ∀ early more later, j = early ++ more ++ later → ∀ k x, (replay early).cached? k = some x →
    (replay (early ++ more)).cached? k = some x
  /-- For each geometric property, one part is kept at most. -/
  once : ∀ name, (kept (.geometry name) j).length ≤ 1
  /-- A free-standing graph is under construction exactly while a call builds it. -/
  building : ∀ before later, j = before ++ later → ∀ name x,
    (replay before).freeStanding[name]? = some (.building x) ↔ UnderConstruction W s j.reverse name x before.reverse
  /-- In the end, no free-standing graph is under construction. -/
  built : ∀ (name : String) (state : Construction), (replay j).freeStanding[name]? = some state → ∃ x, state = .built x

theorem UnderConstruction.standing {name : String} {x : PartId} {m : List Event}
    (h : UnderConstruction W s j name x m) : standing name m = some (.building x) := by
  obtain ⟨rfl, -, starts, -, way, builds, since, upTo, -⟩ := h
  exact standing_of_builds starts way builds since upTo

theorem Caching.writeOnce (h : Caching W s [] j) : WriteOnce W s j.reverse := by
  have idle (name : String) (x : PartId) : standing name [] ≠ some (.building x) := nofun
  have moment {before later : List Event} (split : j.reverse = before ++ later) : before.reverse <:+ j := by
    rw [← List.reverse_reverse j, split, List.reverse_append]
    exact List.suffix_append _ _
  refine ⟨fun early more later split k x known => ?_, fun name => ?_, fun before later split name x => ?_,
    fun name state known => ?_⟩
  · have constant : IsConstant (kept k j) := h.isConstant fun y hy => absurd hy List.not_mem_nil
    have within : kept k early.reverse <:+ kept k (early ++ more).reverse := by
      rw [List.reverse_append]
      exact (List.suffix_append _ _).filterMap _
    have whole : kept k (early ++ more).reverse <:+ kept k j := (moment split).filterMap _
    rw [← List.reverse_reverse early, cached?_replay] at known
    rw [← List.reverse_reverse (early ++ more), cached?_replay]
    have there := within.subset (List.mem_of_mem_head? known)
    obtain ⟨y, hy⟩ : ∃ y, (kept k (early ++ more).reverse).head? = some y :=
      Option.isSome_iff_exists.1 (List.isSome_head?.2 (List.ne_nil_of_mem there))
    rw [hy, constant x (whole.subset there) y (whole.subset (List.mem_of_mem_head? hy))]
  · rw [kept, List.filterMap_reverse, List.length_reverse]
    exact h.length_le (k := .geometry name) nofun (Nat.zero_le 1)
  · rw [List.reverse_reverse, ← List.reverse_reverse before, freeStanding_replay, List.reverse_reverse]
    refine ⟨fun building => ?_, fun h => h.standing⟩
    exact (h.controlled name (idle name)).2 _ x (List.nil_suffix) (moment split) building
  · rw [freeStanding_replay] at known
    cases state with
    | building x => exact ((h.controlled name (idle name)).1 x known).elim
    | built x => exact ⟨x, rfl⟩

theorem Build.Closes.leafwork (h : Closes r c c') : Leafwork c c' := by
  cases h with
  | released xs => exact leafwork_releasedAll xs c
  | finished xs => exact (leafwork_releasedAll xs c).trans (Leafwork.message (.finished _ _ _))

/-- Whatever is loaded, what graphs share is written once: the part for the top level, those for geometric properties and
those for free-standing graphs stay what they are; a property has one part at most, and the node created for a part
that is not kept is deleted. A free-standing graph is under construction exactly while a call builds it, and in the end
none is. While it is, a request for it is refused and changes nothing; later, a request for outputs whose nodes are all
built asks nothing of the renderer. -/
theorem caches_write_once (l : Loader) (d : Document) (options : LoadOptions) (fileExists : String → Bool)
    (r : Renderer σ) (s : σ) (o : Outcome σ) (loaded : l.load d options fileExists r s = some o) :
    WriteOnce (l.env d options fileExists r) s o.journal ∧
    (∀ (E : Env σ) c g, After (geomPart g) E c (LooksUp g c)) ∧
    (∀ sub (E : Env σ) c (g : NodeGraph) required x, c.assembly.freeStanding[g.name]? = some (.building x) →
      freeStandingGraph sub g required E c =
        .ok (.error (.cycle ("node graph " ++ g.name ++ " depends on itself")), c)) ∧
    ∀ sub (E : Env σ) c (g : NodeGraph) required x, IsReady sub → c.assembly.freeStanding[g.name]? = some (.built x) →
      (c.assembly.composite? x).isSome →
      (∀ o ∈ required, (c.assembly.child? x (o.nodeName?.getD "")).isSome) →
      ∃ res c', freeStandingGraph sub g required E c = .ok (res, c') ∧ Idles c c' ∧ (required ≠ [] → res = .ok x) := by
  obtain ⟨c, c', course, closes, -, journal⟩ := course_of_load loaded
  have caching := (course.caching (isMoment_start s)).trans closes.leafwork.caching
  refine ⟨journal ▸ caching.writeOnce, fun _ _ _ => looksUp_geomPart, fun sub E c g required x building => ?_,
    fun sub E c g required x ready known composite built => ?_⟩
  · exact freeStandingGraph_of_building building sub required E
  · obtain ⟨k, composite⟩ := Option.isSome_iff_exists.1 composite
    exact freeStandingGraph_of_built ready known composite built

/-- A node takes the value of a free-standing graph, and a geometric property. -/
def lender : Document where
  nodeDefs := [
    { name := "ND_add", node := "add", type := "float"
      inputs := [{ name := "in1", type := "float" }, { name := "in2", type := "float" }] }]
  geomPropDefs := [{ name := "UV0", geomProp := "texcoord", type := "vector2" }]
  nodeGraphs := [
    { name := "NG"
      nodes := [{ name := "k", category := "constant", type := "float" }]
      outputs := [{ name := "value", type := "integer", nodeName := some "k" }] }]
  nodes := [
    { name := "n", category := "add", type := "float"
      inputs := [{ name := "in1", type := "float", nodeGraph := some "NG", output := some "value" },
        { name := "in2", type := "float", defaultGeomProp := some "UV0" }] }]
  outputs := [{ name := "o", type := "float", nodeName := some "n" }]

/-- The renderer and the documents of a load of it. -/
def lender.env : Env Recorder := ({} : Loader).env lender {} (fun _ => false) Recorder.renderer

theorem caches_write_once_lender :
    ∃ o, Loader.load {} lender {} (fun _ => false) Recorder.renderer {} = some o ∧
      WriteOnce lender.env {} o.journal ∧
      UnderConstruction lender.env {} o.journal.reverse "NG" 2 (o.journal.take 20).reverse ∧
      (replay o.journal).freeStanding["NG"]? = some (.built 2) ∧
      (replay o.journal).cached? (.geometry "UV0") = some 4 := by
  have evaluated : (Loader.load {} lender {} (fun _ => false) Recorder.renderer {}).map
      (fun o => ((replay (o.journal.take 20)).freeStanding["NG"]?, (replay o.journal).freeStanding["NG"]?,
        (replay o.journal).cached? (.geometry "UV0"))) = some (some (.building 2), some (.built 2), some 4) := by
    decide +kernel
  obtain ⟨o, loaded, same⟩ := Option.map_eq_some_iff.1 evaluated
  obtain ⟨building, same⟩ := Prod.mk.inj same
  obtain ⟨built, geometry⟩ := Prod.mk.inj same
  have once := (caches_write_once {} lender {} (fun _ => false) Recorder.renderer {} o loaded).1
  refine ⟨o, loaded, once, ?_, built, geometry⟩
  exact (once.building _ (o.journal.drop 20) (List.take_append_drop 20 o.journal).symm "NG" 2).1 building

end MaterialGraph
