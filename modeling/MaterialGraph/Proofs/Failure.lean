import MaterialGraph.Proofs.Build.Children
import MaterialGraph.Proofs.Journal

/-!
# Failed constructions

What cannot be built leaves nothing behind but composites without children: no part is changed, nothing is shared, and
the nodes that were created on the way have been deleted.

* `Barren.leavesNothing` : whatever a failed construction does, it leaves nothing behind.
* `failure_leaves_nothing` : a build without a result is a failed construction, whatever it was asked for.
-/

namespace MaterialGraph

set_option autoImplicit false

open Assembly

variable {σ : Type}

theorem created_append (j j' : List Event) : created (j ++ j') = created j ++ created j' := List.filterMap_append

theorem deleted_append (j j' : List Event) : deleted (j ++ j') = deleted j ++ deleted j' := List.filterMap_append

theorem Scoped.append {j j' : List Event} (h : Scoped j) (h' : Scoped j') : Scoped (j ++ j') := by
  induction j with
  | nil => exact h'
  | cons e j ih =>
      refine ⟨fun g hg => ?_, ih h.2⟩
      change g ∈ created (j ++ j')
      rw [created_append]
      exact List.mem_append_left _ (h.1 g hg)

namespace Build

variable {r : Renderer σ} {W E : Env σ} {c c' : Context σ}

/-! ## Nothing is left -/

/-- Nothing is left but composites without children. All calls were about nodes created meanwhile, and these have been
deleted again, in the order of their creation. -/
structure LeavesNothing (c c' : Context σ) : Prop where
  size : c.assembly.size ≤ c'.assembly.size
  kept : ∀ {x}, x < c.assembly.size → c'.assembly.part? x = c.assembly.part? x
  added : ∀ {x q}, c.assembly.size ≤ x → c'.assembly.part? x = some q → ∃ g, q = .composite { graph := g }
  top : c'.assembly.top = c.assembly.top
  geometry : c'.assembly.geometry = c.assembly.geometry
  freeStanding : c'.assembly.freeStanding = c.assembly.freeStanding
  calls : ∃ new, c'.journal = new ++ c.journal ∧ Scoped new ∧ deleted new = created new

namespace LeavesNothing

theorem of_calls (new : List Event) (assembly : c'.assembly = c.assembly) (journal : c'.journal = new ++ c.journal)
    (order : Scoped new) (gone : deleted new = created new) : LeavesNothing c c' where
  size := Nat.le_of_eq (congrArg Assembly.size assembly.symm)
  kept _ := by rw [assembly]
  added hx hq := by
    rw [assembly, part?_eq_none.2 hx] at hq
    cases hq
  top := by rw [assembly]
  geometry := by rw [assembly]
  freeStanding := by rw [assembly]
  calls := ⟨new, journal, order, gone⟩

theorem refl (c : Context σ) : LeavesNothing c c := of_calls [] rfl rfl trivial rfl

theorem trans {c₁ : Context σ} (h₁ : LeavesNothing c c₁) (h₂ : LeavesNothing c₁ c') : LeavesNothing c c' where
  size := Nat.le_trans h₁.size h₂.size
  kept hx := (h₂.kept (Nat.lt_of_lt_of_le hx h₁.size)).trans (h₁.kept hx)
  added {x q} hx hq := by
    rcases Nat.lt_or_ge x c₁.assembly.size with lt | ge
    · exact h₁.added hx ((h₂.kept lt).symm.trans hq)
    · exact h₂.added ge hq
  top := h₂.top.trans h₁.top
  geometry := h₂.geometry.trans h₁.geometry
  freeStanding := h₂.freeStanding.trans h₁.freeStanding
  calls := by
    obtain ⟨new₁, journal₁, order₁, gone₁⟩ := h₁.calls
    obtain ⟨new₂, journal₂, order₂, gone₂⟩ := h₂.calls
    refine ⟨new₂ ++ new₁, ?_, order₂.append order₁, ?_⟩
    · rw [journal₂, journal₁, List.append_assoc]
    · rw [deleted_append, created_append, gone₁, gone₂]

theorem composite (c : Context σ) (g : Graph) : LeavesNothing c (c.edit (.add (.composite { graph := g }))) where
  size := by
    rw [Context.edit_assembly, size_add]
    exact Nat.le_succ _
  kept hx := part?_add_of_ne _ (Nat.ne_of_lt hx)
  added {x q} hx hq := by
    rw [Context.edit_assembly, part?_add] at hq
    by_cases here : x = c.assembly.size
    · rw [if_pos here] at hq
      cases hq
      exact ⟨g, rfl⟩
    · rw [if_neg here, part?_eq_none.2 hx] at hq
      cases hq
  top := rfl
  geometry := rfl
  freeStanding := rfl
  calls := ⟨[.edited _], rfl, ⟨nofun, trivial⟩, rfl⟩

theorem message (c : Context σ) {e : Event} (message : IsMessage e) : LeavesNothing c (c.push e) := by
  cases message <;> exact of_calls [_] rfl rfl ⟨nofun, trivial⟩ rfl

theorem mark (c : Context σ) {e : Edit} (mark : IsMark e) : LeavesNothing c (c.edit e) := by
  cases mark <;> exact of_calls [.edited _] rfl rfl ⟨nofun, trivial⟩ rfl

end LeavesNothing

/-- Settings without nodes name the new node alone, and delete nothing. -/
theorem Acts.settings {h : Handle} {settings : List (InputKey × Bound)} (fixed : Fixed settings)
    (acts : Acts r (IsSetting h settings) c c') :
    ∃ new, c'.journal = new ++ c.journal ∧ created new = [] ∧ deleted new = [] ∧ ∀ e ∈ new, ∀ g ∈ e.names, g = h := by
  induction acts with
  | refl => exact ⟨[], rfl, rfl, rfl, fun _ he => absurd he List.not_mem_nil⟩
  | @act c₁ a before ha ih =>
      obtain ⟨new, journal, none, kept, own⟩ := ih
      have named : ∀ g ∈ Event.ofAction a, g = h := by
        cases ha with
        | rename => exact fun g hg => List.mem_singleton.1 hg
        | @bind key value mem =>
            cases value with
            | node g => exact absurd mem (fixed key g)
            | floats | word => exact fun g hg => List.mem_singleton.1 hg
      refine ⟨.acted a (r.act a c₁.system).1 :: new, congrArg _ journal, none, ?_, ?_⟩
      · rw [← kept]
        cases ha <;> rfl
      · exact List.forall_mem_cons.2 ⟨named, own⟩

/-- The calls that set up a node and delete it again. -/
theorem scoped_of_names {h : Handle} {new : List Event} {e : Event} (made : e.created? = some h) (own : e.names = [])
    (named : ∀ e ∈ new, ∀ g ∈ e.names, g = h) : Scoped (new ++ [e]) := by
  induction new with
  | nil => exact ⟨by rw [own]; exact nofun, trivial⟩
  | cons x new ih =>
      obtain ⟨hx, hnew⟩ := List.forall_mem_cons.1 named
      refine ⟨fun g hg => ?_, ih hnew⟩
      change g ∈ created (new ++ [e])
      rw [hx g hg, created_append]
      exact List.mem_append_right _ (List.mem_filterMap.2 ⟨e, List.mem_singleton_self e, made⟩)

theorem CreatesLeaf.leavesNothing {type : NodeType} {role : Role} {settings : List (InputKey × Bound)}
    {name : Option String} {e : LoadError}
    (creation : CreatesLeaf r type role settings name c (.error e) c') (fixed : Fixed settings) : LeavesNothing c c' := by
  have assembly := creation.assembly
  cases creation with
  | refused reply =>
      refine .of_calls [.created type (r.create type c.system).1] assembly rfl ⟨nofun, trivial⟩ ?_
      rw [reply]
      rfl
  | @undone h c₁ e reply setup =>
      obtain ⟨new, journal, none, kept, own⟩ := setup.settings.settings fixed
      have made : (Event.created type (r.create type c.system).1).created? = some h := by rw [reply]; rfl
      have all : created (new ++ [.created type (r.create type c.system).1]) = [h] := by
        rw [created_append, none, created, List.filterMap_cons_some made]
        rfl
      refine .of_calls (.acted (.delete h) (r.act (.delete h) c₁.system).1 ::
        (new ++ [.created type (r.create type c.system).1])) assembly ?_ ⟨fun g hg => ?_, ?_⟩ ?_
      · rw [Context.acted_journal, journal, Context.created_journal, List.cons_append, List.append_assoc]
        rfl
      · rw [all]
        exact hg
      · exact scoped_of_names made rfl own
      · change h :: deleted _ = created _
        rw [deleted_append, kept]
        exact all.symm

/-- A failed construction leaves nothing behind. -/
theorem Barren.leavesNothing (h : Barren r c c') : LeavesNothing c c' := by
  induction h with
  | refl c => exact .refl c
  | trans _ _ ih₁ ih₂ => exact ih₁.trans ih₂
  | message c message => exact .message c message
  | task _ ih => exact ((LeavesNothing.mark _ (.began _)).trans ih).trans (.mark _ (.ended _ _))
  | failed fixed creation => exact creation.leavesNothing fixed
  | composite c g => exact .composite c g

/-! ## What fails -/

variable {sub : SubPart σ} {p : Place} {id : PartId}

/-- A node that is not built fails before anything is noted or any input is resolved. -/
theorem after_buildChild_none (hsub : Sound W sub) {n : Node} :
    After (buildChild sub id n) (W.at p) c fun res c' => res.1 = none → Barren W.renderer c c' ∧ res.2 = [] := by
  refine builds_buildChild.mono fun res c' builds none => ?_
  cases builds with
  | there | built => cases none
  | failed _ call report =>
      cases (after_buildNode hsub).of_eq call with
      | failed barren =>
          exact ⟨(Barren.message c (.remark _ _)).trans (barren.trans (barren_reportNode.of_eq report)), rfl⟩

/-- Whatever the fuel, the renderer and the context are: a child that cannot be given, a node that cannot be built, a
graph that cannot be built and outputs that cannot be built leave nothing behind. -/
theorem failure_leaves_nothing (W : Env σ) (fuel : Nat) (id : PartId) (c : Context σ) :
    (∀ name, After (childPart fuel id name) W c fun res c' => res = none → LeavesNothing c c') ∧
    (∀ n, After (buildChild (childPart fuel) id n) W c fun res c' =>
      res.1 = none → LeavesNothing c c' ∧ res.2 = []) ∧
    (∀ g required, After (buildComposite (childPart fuel) g required) W c fun res c' =>
      ∀ e, res = .error e → LeavesNothing c c') ∧
    ∀ required, After (buildOutputs (childPart fuel) id required) W c fun res c' =>
      ∀ e, res = .error e → LeavesNothing c c' := by
  have sound : Sound W (childPart fuel) := sound_childPart fuel
  refine ⟨fun name => ?_, fun n => ?_, fun g required => ?_, fun required => ?_⟩
  · refine (sound W.place id name c).mono fun res c' gives none => ?_
    cases gives with
    | child => cases none
    | nothing barren => exact barren.leavesNothing
  · refine (after_buildChild_none (p := W.place) sound).mono fun res c' fails none => ?_
    exact ⟨(fails none).1.leavesNothing, (fails none).2⟩
  · refine (after_buildComposite (p := W.place) sound).mono fun res c' composes e failed => ?_
    cases composes with
    | done => cases failed
    | failed barren => exact barren.leavesNothing
  · refine (after_buildOutputs (p := W.place) (s := 0) sound).mono fun res c' fills e failed => ?_
    rw [failed] at fills
    exact (fills.2 rfl).leavesNothing

/-- A renderer that creates nodes but obeys no action. -/
def disobedient : Renderer Nat where
  hasNames := true
  create _ n := (.ok ⟨n⟩, n + 1)
  act _ n := (.error .invalid, n)

/-- A node whose graph has one node, which needs an action. -/
def sumInside : Document where
  nodeDefs := [{ name := "ND_thing", node := "thing", type := "float", nodeGraph := some "NG_thing" }]
  nodeGraphs := [
    { name := "NG_thing", nodeDef := some "ND_thing"
      nodes := [{ name := "sum", category := "add", type := "float" }]
      outputs := [{ name := "out", type := "float", nodeName := some "sum" }] }]
  nodes := [{ name := "x", category := "thing", type := "float" }]

/-- The environment and the context in which the top level of that document is asked for its node. -/
def disobedientEnv : Env Nat := { renderer := disobedient, catalog := ⟨sumInside, none⟩ }

def topAlone : Context Nat :=
  ({ system := 0 } : Context Nat).edit (.add (.composite { graph := .document sumInside }))

/-- A composite is added, and a node is created and deleted. -/
theorem failure_leaves_nothing_disobedient :
    ∃ c', childPart 2 0 "x" disobedientEnv topAlone = .ok (none, c') ∧ c'.assembly.size = 2 ∧
      created c'.journal = [⟨0⟩] ∧ LeavesNothing topAlone c' := by
  have evaluated : (childPart 2 0 "x" disobedientEnv topAlone).toOption.map
      (fun rc => (rc.1, rc.2.assembly.size, created rc.2.journal)) = some (none, 2, [⟨0⟩]) := by decide +kernel
  obtain ⟨res, c', built, same⟩ := exists_of_toOption evaluated
  obtain ⟨rfl, size, made⟩ : res = none ∧ c'.assembly.size = 2 ∧ created c'.journal = [⟨0⟩] := by
    simpa [Prod.ext_iff] using same
  have fails := (failure_leaves_nothing disobedientEnv 2 0 topAlone).1 "x"
  exact ⟨c', built, size, made, fails.of_eq built rfl⟩

end Build

end MaterialGraph
