import Mathlib.Data.List.Basic
import Mathlib.Data.List.Nodup
import MaterialGraph.Proofs.Journal
import MaterialGraph.Renderer.Recorder

/-!
# What the recording renderer does

* `Recorder.Reachable` : the states that calls lead to. All their live nodes have been created (`Reachable.numbered`).
* `Recorder.bound_act` : where a value comes from that is bound after a call.
* `Recorder.fresh` : no handle is ever created twice.
* `History.node?_eq_of_lt` : a journal that names only handles of its own leaves all older nodes as they are.
* `History.isSome_node?` : what is live at the end of a journal was live before it or is created there, and is not
  deleted there.
-/

namespace MaterialGraph

set_option autoImplicit false

theorem Handle.id_ne {h g : Handle} (hne : g ≠ h) : h.id ≠ g.id := by
  cases g
  cases h
  rintro rfl
  exact hne rfl

namespace Recorder

variable {s t : Recorder} {h g : Handle}

/-- The recorders that calls lead to. -/
inductive Reachable : Recorder → Prop
  | start : Reachable {}
  | failing {r : Recorder} (before : Reachable r) (type : NodeType) : Reachable (r.failCreationOf type)
  | create {r : Recorder} (before : Reachable r) (type : NodeType) : Reachable (create type r).2
  | act {r : Recorder} (before : Reachable r) (a : Action) : Reachable (act a r).2

/-! ## One call -/

theorem create_ok {type : NodeType} (hr : (create type s).1 = .ok h) :
    h = ⟨s.created⟩ ∧ (create type s).2.created = s.created + 1 := by
  unfold create at hr ⊢
  split at hr
  · cases hr
  · next hf =>
    cases hr
    rw [if_neg hf]
    exact ⟨rfl, rfl⟩

theorem create_error {type : NodeType} {e : CallError} (hr : (create type s).1 = .error e) :
    (create type s).2 = s := by
  unfold create at hr ⊢
  split at hr
  · next hf => rw [if_pos hf]
  · cases hr

theorem node?_create {type : NodeType} (hr : (create type s).1 = .ok h) :
    (create type s).2.node? g = if g = h then some { type := type } else s.node? g := by
  unfold create at hr ⊢
  split at hr
  · cases hr
  · next hf =>
    cases hr
    rw [if_neg hf]
    change (s.live.insert s.created { type := type })[g.id]? = _
    rw [Std.TreeMap.getElem?_insert]
    by_cases hg : g = ⟨s.created⟩
    · rw [if_pos hg, hg, if_pos (by simp)]
    · rw [if_neg hg, if_neg (by simpa using Handle.id_ne hg)]
      rfl

theorem created_modify (f : RecordedNode → RecordedNode) : (s.modify h f).2.created = s.created := by
  unfold modify
  split <;> rfl

theorem node?_modify (f : RecordedNode → RecordedNode) :
    (s.modify h f).2.node? g = if g = h then (s.node? g).map f else s.node? g := by
  unfold modify
  cases hn : s.node? h with
  | none =>
      by_cases hg : g = h
      · rw [if_pos hg, hg, hn]
        rfl
      · rw [if_neg hg]
  | some n =>
      change (s.live.insert h.id (f n))[g.id]? = _
      rw [Std.TreeMap.getElem?_insert]
      by_cases hg : g = h
      · rw [if_pos hg, hg, hn, if_pos (by simp)]
        rfl
      · rw [if_neg hg, if_neg (by simpa using Handle.id_ne hg)]
        rfl

theorem act_bind (key : InputKey) (value : Bound) :
    act (.bind h key value) s = if s.accepts value then s.modify h (·.bind key value) else (.error .invalid, s) :=
  rfl

theorem act_rename (name : String) : act (.rename h name) s = s.modify h fun n => { n with name := some name } := rfl

theorem created_delete : (act (.delete h) s).2.created = s.created := by
  unfold act
  dsimp only
  split <;> rfl

theorem node?_delete : (act (.delete h) s).2.node? g = if g = h then none else s.node? g := by
  unfold act
  dsimp only
  cases hn : s.node? h with
  | none =>
      by_cases hg : g = h
      · rw [if_pos hg, hg]
        exact hn
      · rw [if_neg hg]
        rfl
  | some n =>
      change (s.live.erase h.id)[g.id]? = _
      rw [Std.TreeMap.getElem?_erase]
      by_cases hg : g = h
      · rw [if_pos hg, hg, if_pos (by simp)]
      · rw [if_neg hg, if_neg (by simpa using Handle.id_ne hg)]
        rfl

theorem delete_ok (live : (s.node? h).isSome) : (act (.delete h) s).1 = .ok () := by
  unfold act
  dsimp only
  obtain ⟨n, hn⟩ := Option.isSome_iff_exists.1 live
  rw [hn]

theorem failing_create (type : NodeType) : (create type s).2.failing = s.failing := by
  unfold create
  split <;> rfl

theorem failing_modify (f : RecordedNode → RecordedNode) : (s.modify h f).2.failing = s.failing := by
  unfold modify
  split <;> rfl

theorem failing_delete : (act (.delete h) s).2.failing = s.failing := by
  unfold act
  dsimp only
  split <;> rfl

/-- The types of nodes that cannot be created stay the same. -/
theorem failing_act (a : Action) : (act a s).2.failing = s.failing := by
  cases a with
  | bind h key value =>
      rw [act_bind]
      split
      · exact failing_modify _
      · rfl
  | rename h name =>
      rw [act_rename]
      exact failing_modify _
  | delete h => exact failing_delete

theorem created_act (a : Action) : (act a s).2.created = s.created := by
  cases a with
  | bind h key value =>
      rw [act_bind]
      split
      · exact created_modify _
      · rfl
  | rename h name =>
      rw [act_rename]
      exact created_modify _
  | delete h => exact created_delete

/-- An action that is no deletion keeps alive what is alive. -/
theorem isSome_node?_act {a : Action} (kept : ∀ h, a ≠ .delete h) :
    ((act a s).2.node? g).isSome = (s.node? g).isSome := by
  have modified (h : Handle) (f : RecordedNode → RecordedNode) :
      ((s.modify h f).2.node? g).isSome = (s.node? g).isSome := by
    rw [node?_modify]
    split <;> simp
  cases a with
  | delete h => exact absurd rfl (kept h)
  | rename h name =>
      rw [act_rename]
      exact modified h _
  | bind h key value =>
      rw [act_bind]
      split
      · exact modified h _
      · rfl

/-- An action leaves the nodes that it does not name. -/
theorem node?_act_of_notMem {a : Action} (hg : g ∉ Event.ofAction a) : (act a s).2.node? g = s.node? g := by
  cases a with
  | delete h => rw [node?_delete, if_neg (List.ne_of_not_mem_cons hg)]
  | rename h name => rw [act_rename, node?_modify, if_neg (List.ne_of_not_mem_cons hg)]
  | bind h key value =>
      have hne : g ≠ h := by
        rintro rfl
        cases value <;> exact hg List.mem_cons_self
      rw [act_bind]
      split
      · rw [node?_modify, if_neg hne]
      · rfl

/-- Every live node of a reachable recorder has been created. -/
theorem Reachable.numbered (hs : s.Reachable) (live : (s.node? h).isSome) : h.id < s.created := by
  induction hs with
  | start => cases live
  | failing _ type ih => exact ih live
  | @create r _ type ih =>
      cases hr : (Recorder.create type r).1 with
      | error e =>
          rw [create_error hr] at live ⊢
          exact ih live
      | ok g =>
          obtain ⟨rfl, more⟩ := create_ok hr
          rw [node?_create hr] at live
          rw [more]
          by_cases hg : h = ⟨r.created⟩
          · rw [hg]
            exact Nat.lt_succ_self _
          · rw [if_neg hg] at live
            exact Nat.lt_succ_of_lt (ih live)
  | @act r _ a ih =>
      rw [created_act]
      cases a with
      | delete g =>
          rw [node?_delete] at live
          by_cases hg : h = g
          · rw [if_pos hg] at live
            cases live
          · rw [if_neg hg] at live
            exact ih live
      | bind | rename =>
          rw [isSome_node?_act (by rintro _ ⟨⟩)] at live
          exact ih live

theorem Reachable.node?_eq_none (hs : s.Reachable) (new : s.created ≤ h.id) : s.node? h = none :=
  Option.not_isSome_iff_eq_none.1 fun live => Nat.not_lt.2 new (hs.numbered live)

/-! ## Calls that fail, and calls that bind -/

variable {n : RecordedNode} {key : InputKey} {v : Bound}

theorem modify_error {f : RecordedNode → RecordedNode} {error : CallError} (refused : (s.modify h f).1 = .error error) :
    (s.modify h f).2 = s := by
  unfold modify at refused ⊢
  split at refused
  · cases refused
  · rfl

theorem delete_ok_iff : (act (.delete h) s).1 = .ok () ↔ (s.node? h).isSome := by
  refine ⟨fun obeyed => ?_, delete_ok⟩
  unfold act at obeyed
  dsimp only at obeyed
  split at obeyed
  · next live => rw [live]; rfl
  · cases obeyed

/-- A call that fails leaves all live nodes as they are. -/
theorem node?_act_error {a : Action} {error : CallError} (refused : (act a s).1 = .error error) :
    (act a s).2.node? g = s.node? g := by
  cases a with
  | bind h key value =>
      rw [act_bind] at refused ⊢
      split at refused
      · next accepted => rw [if_pos accepted, modify_error refused]
      · next rejected => rw [if_neg rejected]
  | rename h name =>
      rw [act_rename] at refused ⊢
      rw [modify_error refused]
  | delete h =>
      have dead : s.node? h = none := by
        rw [← Option.not_isSome_iff_eq_none, ← delete_ok_iff, refused]
        exact nofun
      rw [node?_delete]
      by_cases same : g = h
      · rw [if_pos same, same, dead]
      · rw [if_neg same]

theorem bind_ok {value : Bound} (obeyed : (act (.bind h key value) s).1 = .ok ()) :
    s.accepts value = true ∧ (act (.bind h key value) s).2 = (s.modify h (·.bind key value)).2 := by
  rw [act_bind] at obeyed ⊢
  split at obeyed
  · next accepted => exact ⟨accepted, by rw [if_pos accepted]⟩
  · cases obeyed

/-- What is bound to an input of a live node after a call has been bound by it, while the recorder accepted it, or was
bound before it, and then no binding of this input has been obeyed. -/
theorem bound_act {a : Action} (live : (act a s).2.node? h = some n) (bound : n.bound key = some v) :
    (a = .bind h key v ∧ (act a s).1 = .ok () ∧ s.accepts v = true) ∨
      ∃ n₀, s.node? h = some n₀ ∧ n₀.bound key = some v ∧
        ∀ value, a = .bind h key value → (act a s).1 ≠ .ok () := by
  cases reply : (act a s).1 with
  | error error =>
      rw [node?_act_error reply] at live
      exact .inr ⟨n, live, bound, fun _ _ => nofun⟩
  | ok =>
      cases a with
      | delete g =>
          rw [node?_delete] at live
          split at live
          · cases live
          · exact .inr ⟨n, live, bound, nofun⟩
      | rename g name =>
          rw [act_rename, node?_modify] at live
          split at live
          · obtain ⟨n₀, before, rfl⟩ := Option.map_eq_some_iff.1 live
            exact .inr ⟨n₀, before, bound, nofun⟩
          · exact .inr ⟨n, live, bound, nofun⟩
      | bind g key' value =>
          obtain ⟨accepted, after⟩ := bind_ok reply
          rw [after, node?_modify] at live
          split at live
          · next same =>
            subst same
            obtain ⟨n₀, before, rfl⟩ := Option.map_eq_some_iff.1 live
            rw [RecordedNode.bind] at bound
            dsimp only at bound
            split at bound
            · next this =>
              cases bound
              exact .inl ⟨this ▸ rfl, rfl, accepted⟩
            · next other =>
              refine .inr ⟨n₀, before, bound, ?_⟩
              rintro _ ⟨⟩
              exact absurd rfl other
          · next other =>
            refine .inr ⟨n, live, bound, ?_⟩
            rintro _ ⟨⟩
            exact absurd rfl other

/-! ## How often a handle is deleted -/

theorem deletionsOf_create (type : NodeType) (g : Handle) : (create type s).2.deletionsOf g = s.deletionsOf g := by
  unfold create
  split <;> rfl

theorem deletionsOf_modify (h : Handle) (f : RecordedNode → RecordedNode) (g : Handle) :
    (s.modify h f).2.deletionsOf g = s.deletionsOf g := by
  unfold modify
  split <;> rfl

theorem deletionsOf_delete (h g : Handle) :
    (act (.delete h) s).2.deletionsOf g = if g = h then s.deletionsOf g + 1 else s.deletionsOf g := by
  have counted (r : Recorder) (hr : r.deletions = s.deletions.insert h.id (s.deletionsOf h + 1)) :
      r.deletionsOf g = if g = h then s.deletionsOf g + 1 else s.deletionsOf g := by
    rw [deletionsOf, hr, Std.TreeMap.getD_insert]
    by_cases hg : g = h
    · rw [if_pos hg, hg, if_pos (by simp)]
    · rw [if_neg hg, if_neg (by simpa using Handle.id_ne hg)]
      rfl
  unfold act
  dsimp only
  split <;> exact counted _ rfl

end Recorder

/-! ## Journals -/

section Lists

variable {e : Event} {j : List Event}

theorem created_cons_of_other (other : ¬ e.IsCall) : created (e :: j) = created j := by
  refine List.filterMap_cons_none ?_
  cases e <;> first | rfl | exact absurd trivial other

theorem deleted_cons_of_other (other : ¬ e.IsCall) : deleted (e :: j) = deleted j := by
  refine List.filterMap_cons_none ?_
  cases e <;> first | rfl | exact absurd trivial other

theorem created_acted (a : Action) (reply : Except CallError Unit) :
    created (.acted a reply :: j) = created j := rfl

theorem deleted_acted {a : Action} (kept : ∀ h, a ≠ .delete h) (reply : Except CallError Unit) :
    deleted (.acted a reply :: j) = deleted j := by
  refine List.filterMap_cons_none ?_
  cases a <;> first | rfl | exact absurd rfl (kept _)

/-- What is named has been created, if a journal names only handles of its own. -/
theorem Scoped.created_of_names (order : Scoped j) {h : Handle} (he : e ∈ j) (hh : h ∈ e.names) : h ∈ created j := by
  induction j with
  | nil => cases he
  | cons x j ih =>
      refine ((List.sublist_cons_self x j).filterMap _).subset ?_
      rcases List.mem_cons.1 he with rfl | he
      · exact order.1 h hh
      · exact ih order.2 he

theorem Scoped.created_of_deleted (order : Scoped j) {h : Handle} (hh : h ∈ deleted j) : h ∈ created j := by
  obtain ⟨e, he, gone⟩ := List.mem_filterMap.1 hh
  refine order.created_of_names he ?_
  unfold Event.deleted? at gone
  split at gone
  · cases gone
    exact List.mem_singleton_self _
  · cases gone

end Lists

namespace History

open Recorder

variable {s t : Recorder} {j : List Event} {h : Handle}

/-- Handles are numbered in the order of their creation, from the number of the first on. -/
theorem created_reverse (hist : History renderer s j t) :
    (created j).reverse = (List.range' s.created (created j).length).map Handle.mk ∧
      t.created = s.created + (created j).length := by
  induction hist with
  | start => exact ⟨rfl, rfl⟩
  | @create j t before type ih =>
      change (created (.created type (Recorder.create type t).1 :: j)).reverse =
        (List.range' s.created (created (.created type (Recorder.create type t).1 :: j)).length).map _ ∧
          (Recorder.create type t).2.created =
            s.created + (created (.created type (Recorder.create type t).1 :: j)).length
      cases hr : (Recorder.create type t).1 with
      | error e =>
          rw [create_error hr]
          exact ih
      | ok g =>
          obtain ⟨rfl, more⟩ := create_ok hr
          have made : created (.created type (.ok ⟨t.created⟩) :: j) = ⟨t.created⟩ :: created j := rfl
          rw [made, List.reverse_cons, List.length_cons, ih.1, more, ih.2]
          refine ⟨?_, by omega⟩
          rw [List.range'_concat, List.map_append, Nat.one_mul]
          rfl
  | @act j t before a ih =>
      rw [created_acted]
      refine ⟨ih.1, ?_⟩
      change (Recorder.act a t).2.created = _
      rw [created_act]
      exact ih.2
  | other before other ih =>
      rw [created_cons_of_other other]
      exact ih

theorem mem_created (hist : History renderer s j t) : h ∈ created j ↔ s.created ≤ h.id ∧ h.id < t.created := by
  rw [← List.mem_reverse, hist.created_reverse.1, hist.created_reverse.2]
  cases h
  simp [List.mem_range'_1]

/-- A journal that names only handles of its own leaves the older nodes as they are. -/
theorem node?_eq_of_lt (hist : History renderer s j t) (order : Scoped j) (old : h.id < s.created) :
    t.node? h = s.node? h := by
  induction hist with
  | start => rfl
  | @create j t before type ih =>
      have ih := ih order.2
      change (Recorder.create type t).2.node? h = _
      cases hr : (Recorder.create type t).1 with
      | error e =>
          rw [create_error hr]
          exact ih
      | ok g =>
          have hne : h ≠ g := by
            rintro rfl
            have bound := before.created_reverse.2
            rw [(create_ok hr).1] at old
            change t.created < _ at old
            omega
          rw [node?_create hr, if_neg hne]
          exact ih
  | @act j t before a ih =>
      change (Recorder.act a t).2.node? h = _
      rw [node?_act_of_notMem]
      · exact ih order.2
      · intro hh
        have := (before.mem_created.1 (order.1 h hh)).1
        omega
  | other _ _ ih => exact ih order.2

/-- What a journal leaves alive was alive before or is created by it, and is not deleted. -/
theorem isSome_node? (hist : History renderer s j t) (order : Scoped j) :
    (t.node? h).isSome ↔ ((s.node? h).isSome ∨ h ∈ created j) ∧ h ∉ deleted j := by
  induction hist with
  | start => simp [created, deleted]
  | @create j t before type ih =>
      have ih := ih order.2
      change ((Recorder.create type t).2.node? h).isSome ↔
        ((s.node? h).isSome ∨ h ∈ MaterialGraph.created (.created type (Recorder.create type t).1 :: j)) ∧ h ∉ deleted j
      cases hr : (Recorder.create type t).1 with
      | error e =>
          rw [create_error hr]
          exact ih
      | ok g =>
          have made : h ∈ MaterialGraph.created (.created type (.ok g) :: j) ↔ h = g ∨ h ∈ MaterialGraph.created j :=
            List.mem_cons
          rw [node?_create hr, made]
          by_cases hg : h = g
          · -- a new handle is not among those that have been deleted
            have new : h ∉ deleted j := fun hd => by
              have := (before.mem_created.1 (order.2.created_of_deleted hd)).2
              rw [hg, (create_ok hr).1] at this
              exact Nat.lt_irrefl _ this
            simp [hg, hg ▸ new]
          · simp [hg, ih]
  | @act j t before a ih =>
      have ih := ih order.2
      change ((Recorder.act a t).2.node? h).isSome ↔ ((s.node? h).isSome ∨ h ∈ MaterialGraph.created j) ∧
        h ∉ deleted (.acted a (renderer.act a t).1 :: j)
      cases a with
      | delete g =>
          have more : h ∈ deleted (.acted (.delete g) (renderer.act (.delete g) t).1 :: j) ↔ h = g ∨ h ∈ deleted j :=
            List.mem_cons
          rw [node?_delete, more]
          by_cases hh : h = g
          · simp [hh]
          · simp [hh, ih]
      | bind | rename =>
          rw [isSome_node?_act (by rintro _ ⟨⟩), deleted_acted (by rintro _ ⟨⟩)]
          exact ih
  | other _ other ih =>
      rw [created_cons_of_other other, deleted_cons_of_other other]
      exact ih order.2

end History

/-- The recording renderer never creates a handle twice. -/
theorem Recorder.fresh (s : Recorder) : renderer.Fresh s := by
  intro j t hist
  rw [← List.nodup_reverse, hist.created_reverse.1]
  exact List.Nodup.map (fun _ _ h => Handle.mk.inj h) List.nodup_range'

end MaterialGraph
