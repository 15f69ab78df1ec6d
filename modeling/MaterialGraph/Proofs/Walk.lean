import Mathlib.Algebra.BigOperators.Group.List.Basic
import Mathlib.Algebra.GroupWithZero.Nat
import Mathlib.Data.List.Basic
import Mathlib.Data.List.Nodup
import MaterialGraph.Proofs.Build.Run

/-!
# The parts below some parts

* `nodup_reachable` : a walk lists no part twice.
* `mem_reachable` : its fuel lasts, so it lists every part that stands at or below a start.
-/

namespace MaterialGraph

set_option autoImplicit false

theorem NameMap.values_eq {α : Type} (m : NameMap α) : m.values = m.toList.map (·.2) := by
  change m.inner.inner.values = (Std.DTreeMap.Internal.Impl.Const.toList m.inner.inner).map (·.2)
  rw [Std.DTreeMap.Internal.Impl.values_eq_map_snd, Std.DTreeMap.Internal.Impl.Const.toList_eq_toListModel_map,
    List.map_map]
  rfl

theorem NameMap.length_values {α : Type} (m : NameMap α) : m.values.length = m.size := by
  rw [m.values_eq, List.length_map, Std.TreeMap.length_toList]

theorem NameMap.mem_values {α : Type} {m : NameMap α} {v : α} : v ∈ m.values ↔ ∃ name : String, m[name]? = some v := by
  rw [m.values_eq, List.mem_map]
  constructor
  · rintro ⟨⟨name, w⟩, mem, rfl⟩
    exact ⟨name, Std.TreeMap.mem_toList_iff_getElem?_eq_some.1 mem⟩
  · rintro ⟨name, h⟩
    exact ⟨(name, v), Std.TreeMap.mem_toList_iff_getElem?_eq_some.2 h, rfl⟩

/-- What is left of a sum over the items that have not been seen, when one more is seen. -/
theorem sum_unseen {α : Type} [DecidableEq α] {l : List α} (nodup : l.Nodup) {f : α → Nat} {seen seen' : α → Bool}
    {x : α} (new : seen x = false) (more : ∀ y, seen' y = (decide (y = x) || seen y)) (absent : x ∉ l → f x = 0) :
    ((l.filter fun y => !seen y).map f).sum = f x + ((l.filter fun y => !seen' y).map f).sum := by
  by_cases hx : x ∈ l
  · -- the item is one of those that have not been seen, and the others stay as they are
    have mem : x ∈ l.filter fun y => !seen y := by simp [hx, new]
    have rest : (l.filter fun y => !seen y).erase x = l.filter fun y => !seen' y := by
      rw [(nodup.filter _).erase_eq_filter, List.filter_filter]
      refine List.filter_congr fun y _ => ?_
      rw [more, Bool.not_or]
      simp [bne, Bool.beq_eq_decide_eq]
    rw [((List.perm_cons_erase mem).map f).sum_eq, List.map_cons, List.sum_cons, rest]
  · rw [absent hx, Nat.zero_add]
    refine congrArg _ (congrArg _ (List.filter_congr fun y hy => ?_))
    have other : y ≠ x := fun same => hx (same ▸ hy)
    rw [more, decide_eq_false other, Bool.false_or]

namespace Assembly

variable {a : Assembly} {seen stack starts : List PartId} {fuel : Nat} {x y : PartId}

theorem mem_children : y ∈ a.children x ↔ ∃ name, a.child? x name = some y := by
  unfold children child?
  cases a.composite? x with
  | none => simp
  | some k => exact NameMap.mem_values

/-! ## No part twice -/

theorem notMem_of_mem_walk (h : x ∈ a.walk fuel seen stack) : x ∉ seen := by
  induction fuel generalizing seen stack with
  | zero =>
      cases stack with
      | nil => exact absurd h List.not_mem_nil
      | cons => exact absurd h List.not_mem_nil
  | succ fuel ih =>
      cases stack with
      | nil => exact absurd h List.not_mem_nil
      | cons id stack =>
          rw [walk] at h
          split at h
          · exact ih h
          · next new =>
            rcases List.mem_cons.1 h with rfl | h
            · simpa using new
            · exact fun hx => ih h (List.mem_cons_of_mem _ hx)

theorem nodup_walk : (a.walk fuel seen stack).Nodup := by
  induction fuel generalizing seen stack with
  | zero => cases stack <;> exact List.nodup_nil
  | succ fuel ih =>
      cases stack with
      | nil => exact List.nodup_nil
      | cons id stack =>
          rw [walk]
          split
          · exact ih
          · exact List.nodup_cons.2 ⟨fun h => notMem_of_mem_walk h List.mem_cons_self, ih⟩

theorem nodup_reachable (a : Assembly) (starts : List PartId) : (a.reachable starts).Nodup := nodup_walk

/-! ## The fuel lasts -/

/-- The number of children that have not been put on the stack yet: those of the parts that have not been seen. -/
def unseenChildren (a : Assembly) (seen : List PartId) : Nat :=
  (((List.range a.size).filter fun id => !seen.contains id).map fun id => (a.children id).length).sum

theorem unseenChildren_cons (h : x ∉ seen) :
    a.unseenChildren seen = (a.children x).length + a.unseenChildren (x :: seen) := by
  refine sum_unseen List.nodup_range (by simpa using h) (fun id => by simp) fun absent => ?_
  have outside : a.composite? x = none := by
    rw [composite?, part?_eq_none.2 (by simpa using absent)]
  rw [children, outside, List.length_nil]

/-- The parts seen after a walk: those on the stack, and with each part its children. -/
theorem walk_closed (lasts : stack.length + a.unseenChildren seen ≤ fuel) :
    (∀ x ∈ stack, x ∈ seen ∨ x ∈ a.walk fuel seen stack) ∧
      ∀ x ∈ a.walk fuel seen stack, ∀ y ∈ a.children x, y ∈ seen ∨ y ∈ a.walk fuel seen stack := by
  induction fuel generalizing seen stack with
  | zero =>
      have : stack = [] := List.length_eq_zero_iff.1 (by omega)
      rw [this]
      exact ⟨nofun, nofun⟩
  | succ fuel ih =>
      cases stack with
      | nil => exact ⟨nofun, nofun⟩
      | cons id stack =>
          rw [List.length_cons] at lasts
          rw [walk]
          split
          · next old =>
            obtain ⟨onStack, closed⟩ := @ih seen stack (by omega)
            refine ⟨fun x hx => ?_, closed⟩
            rcases List.mem_cons.1 hx with rfl | hx
            · exact .inl (by simpa using old)
            · exact onStack x hx
          · next new =>
            have lasts' : (a.children id ++ stack).length + a.unseenChildren (id :: seen) ≤ fuel := by
              rw [unseenChildren_cons (by simpa using new)] at lasts
              rw [List.length_append]
              omega
            obtain ⟨onStack, closed⟩ := ih lasts'
            have moved : ∀ {z}, z ∈ id :: seen ∨ z ∈ a.walk fuel (id :: seen) (a.children id ++ stack) →
                z ∈ seen ∨ z ∈ id :: a.walk fuel (id :: seen) (a.children id ++ stack) := by
              rintro z (hz | hz)
              · rcases List.mem_cons.1 hz with rfl | hz
                · exact .inr List.mem_cons_self
                · exact .inl hz
              · exact .inr (List.mem_cons_of_mem _ hz)
            refine ⟨fun x hx => ?_, fun x hx y hy => ?_⟩
            · rcases List.mem_cons.1 hx with rfl | hx
              · exact .inr List.mem_cons_self
              · exact moved (onStack x (List.mem_append_right _ hx))
            · rcases List.mem_cons.1 hx with rfl | hx
              · exact moved (onStack y (List.mem_append_left _ hy))
              · exact moved (closed x hx y hy)

def childCount : Part → Nat
  | .composite c => c.children.size
  | .leaf _ => 0

theorem map_childCount (a : Assembly) :
    a.parts.toList.map childCount = (List.range a.size).map fun id => (a.children id).length := by
  refine List.ext_getElem (by simp [size]) fun i h₁ h₂ => ?_
  have hi : i < a.parts.size := by simpa using h₁
  have here : a.part? i = some a.parts[i] := Array.getElem?_eq_getElem hi
  rw [List.getElem_map, List.getElem_map, List.getElem_range, Array.getElem_toList, children, composite?, here]
  cases a.parts[i] with
  | leaf l => rfl
  | composite c => exact (NameMap.length_values _).symm

theorem foldl_childCount (l : List Part) (n : Nat) :
    l.foldl (fun n p => n + childCount p) n = n + (l.map childCount).sum := by
  induction l generalizing n with
  | nil => rfl
  | cons p l ih => rw [List.foldl_cons, ih, List.map_cons, List.sum_cons, Nat.add_assoc]

theorem walkLength_eq (a : Assembly) (starts : List PartId) :
    a.walkLength starts = starts.length + a.unseenChildren [] := by
  have step : a.walkLength starts = a.parts.foldl (fun n p => n + childCount p) starts.length := by
    refine congrArg (fun f => a.parts.foldl f starts.length) ?_
    funext n p
    cases p <;> rfl
  have all : ((List.range a.size).filter fun id => !([] : List PartId).contains id) = List.range a.size :=
    List.filter_eq_self.2 fun _ _ => rfl
  rw [step, ← Array.foldl_toList, foldl_childCount, map_childCount, unseenChildren, all]

/-- Everything at or below a start is reached. -/
theorem mem_reachable (hx : x ∈ starts) (below : Below a x y) : y ∈ a.reachable starts := by
  have ⟨onStack, closed⟩ := walk_closed (Nat.le_of_eq (walkLength_eq a starts).symm)
  induction below with
  | refl => exact (onStack x hx).resolve_left List.not_mem_nil
  | child _ child ih => exact (closed _ ih _ (mem_children.2 ⟨_, child⟩)).resolve_left List.not_mem_nil

end Assembly

end MaterialGraph
