import MaterialGraph.Proofs.Build.Steps

/-!
# Handles in a journal

* `created`, `deleted` : the handles that a list of events creates, and those that it deletes.
* `Event.names` : the handles that an event passes to the renderer.
* `Scoped` : no event names a handle before it has been created.
* `Living` : no event acts on a handle that has been deleted.
* `History` : a journal that a renderer can leave on its way from one state to another.
* `Renderer.Fresh` : the renderer never creates a handle twice.
-/

namespace MaterialGraph

set_option autoImplicit false

open Relation

variable {σ : Type} {r : Renderer σ} {s t : σ} {j : List Event}

namespace Event

def created? : Event → Option Handle
  | created _ (.ok h) => some h
  | _ => none

/-- The handle that is deleted, whether or not the renderer obeys. -/
def deleted? : Event → Option Handle
  | acted (.delete h) _ => some h
  | _ => none

def ofAction : Action → List Handle
  | .bind h _ (.node g) => [h, g]
  | .bind h _ _ => [h]
  | .rename h _ => [h]
  | .delete h => [h]

/-- The handles that an event passes to the renderer. -/
def names : Event → List Handle
  | acted a _ => ofAction a
  | _ => []

def target? : Event → Option Handle
  | acted (.bind h _ _) _ | acted (.rename h _) _ | acted (.delete h) _ => some h
  | _ => none

def IsCall : Event → Prop
  | created _ _ => True
  | acted _ _ => True
  | _ => False

end Event

/-- The handles that are created, in the order of the events. -/
def created (j : List Event) : List Handle := j.filterMap Event.created?

/-- The handles that are deleted, in the order of the events. -/
def deleted (j : List Event) : List Handle := j.filterMap Event.deleted?

/-- No event of a journal, which lists the latest first, names a handle before it has been created. -/
def Scoped : List Event → Prop
  | [] => True
  | e :: j => (∀ h ∈ e.names, h ∈ created j) ∧ Scoped j

/-- No event of a journal acts on a handle that has been deleted: the handle is one of those that have been created, but
not one of those that have been deleted. -/
def Living : List Event → Prop
  | [] => True
  | e :: j => (∀ h ∈ e.target?, ∃ rest, (h :: (rest ++ deleted j)).Perm (created j)) ∧ Living j

theorem Living.of_append {j j' : List Event} (h : Living (j ++ j')) : Living j' := by
  induction j with
  | nil => exact h
  | cons e j ih => exact ih h.2

/-- Where no handle is created twice, a handle that is acted on has not been deleted. -/
theorem Living.notMem_deleted {e : Event} (living : Living (e :: j)) (nodup : (created j).Nodup) {h : Handle}
    (target : e.target? = some h) : h ∉ deleted j := by
  obtain ⟨rest, account⟩ := living.1 h target
  have := (account.nodup_iff.2 nodup)
  rw [List.nodup_cons] at this
  exact fun hd => this.1 (List.mem_append_right _ hd)

/-- In order, too, every handle has been created before it is named. -/
theorem Scoped.of_reverse (h : Scoped j) {pre post : List Event} {e : Event} (hj : j.reverse = pre ++ e :: post) :
    ∀ g ∈ e.names, g ∈ created pre := by
  have hj : j = post.reverse ++ e :: pre.reverse := by
    rw [← List.reverse_reverse j, hj]
    simp
  rw [hj] at h
  generalize post.reverse = later at h
  induction later with
  | nil =>
      intro g hg
      have := h.1 g hg
      rw [created, List.filterMap_reverse, List.mem_reverse] at this
      exact this
  | cons x later ih => exact ih h.2

/-! ## Histories -/

/-- What a renderer can have been asked on its way from one state to another, the latest event first. -/
inductive History (r : Renderer σ) (s : σ) : List Event → σ → Prop
  | start : History r s [] s
  | create {j : List Event} {t : σ} (before : History r s j t) (type : NodeType) :
      History r s (.created type (r.create type t).1 :: j) (r.create type t).2
  | act {j : List Event} {t : σ} (before : History r s j t) (a : Action) :
      History r s (.acted a (r.act a t).1 :: j) (r.act a t).2
  | other {j : List Event} {t : σ} (before : History r s j t) {e : Event} (other : ¬ e.IsCall) : History r s (e :: j) t

/-- From a state on, no handle is ever created twice, whatever is asked of the renderer. -/
def Renderer.Fresh (r : Renderer σ) (s : σ) : Prop := ∀ j t, History r s j t → (created j).Nodup

namespace Build

/-- What a context records is what its renderer has been asked. -/
theorem Moves.history {c c' : Context σ} (h : Moves r c c') (before : History r s c.journal c.system) :
    History r s c'.journal c'.system := by
  induction h with
  | refl => exact before
  | tail _ move ih =>
      cases move with
      | message message =>
          refine ih.other ?_
          cases message <;> exact id
      | edit e => exact ih.other id
      | create type => exact ih.create type
      | act a => exact ih.act a

end Build

end MaterialGraph
