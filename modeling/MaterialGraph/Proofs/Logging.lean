import MaterialGraph.Proofs.Journal
import MaterialGraph.Proofs.Reordering

/-!
# Remarks do not matter

Whether remarks are wanted is asked wherever one is made, in the midst of bindings and of failures. It changes nothing
but the remarks: a load without them is seen in one with them.

* `Event.isCall`, `Event.warning?` : what a load does with its renderer, and what it complains of.
* `Mirror.mute` : a renderer seen in itself by someone who wants no remarks.
* `load_withLogging` : a load with remarks and one without do the same.
-/

namespace MaterialGraph

set_option autoImplicit false

variable {σ : Type}

namespace Event

def isCall : Event → Bool
  | created _ _ => true
  | acted _ _ => true
  | _ => false

def warning? : Event → Option Warning
  | warned w => some w
  | _ => none

end Event

/-- The calls of the renderer among some events, with its replies. -/
def calls (j : List Event) : List Event := j.filter Event.isCall

def warnings (j : List Event) : List Warning := j.filterMap Event.warning?

section

variable {keep : Event → Bool} (j : List Event)

theorem calls_filter (all : ∀ e : Event, e.isCall → keep e) : calls (j.filter keep) = calls j := by
  rw [calls, List.filter_filter]
  refine List.filter_congr fun e _ => ?_
  cases call : e.isCall with
  | false => exact Bool.false_and _
  | true => rw [all e call, Bool.and_self]

theorem warnings_filter (all : ∀ w, keep (.warned w)) : warnings (j.filter keep) = warnings j := by
  rw [warnings, List.filterMap_filter]
  refine List.filterMap_congr fun e _ => ?_
  cases e with
  | warned w => exact if_pos (all w)
  | _ => exact ite_self _

end

/-- A renderer seen in itself by someone who wants no remarks. -/
def Mirror.mute (r : Renderer σ) : Mirror r r := { Mirror.refl r with deaf := true }

/-- Whether remarks are wanted does not matter to a load: it ends or does not end, hands over the same, leaves the
renderer in the same state after the same calls with the same replies, and complains of the same. What it shows without
remarks is what it shows with them, less the remarks. -/
theorem load_withLogging (l : Loader) (d : Document) (options : LoadOptions) (fileExists : String → Bool)
    (r : Renderer σ) (s : σ) :
    Option.Rel (fun on off => off.result = on.result ∧ off.system = on.system ∧ calls off.journal = calls on.journal ∧
        warnings off.journal = warnings on.journal ∧
        (l.withLogging false).shown off = ((l.withLogging true).shown on).filter fun e => !e.isRemark)
      ((l.withLogging true).load d options fileExists r s) ((l.withLogging false).load d options fileExists r s) := by
  have loaders : l.withLogging false = { l.withLogging true with
      library := (l.withLogging false).library, logging := (l.withLogging true).logging && !(Mirror.mute r).deaf } := rfl
  refine rel_mono ?_ (Loader.load_mirrors_heard (Mirror.mute r) loaders (.refl _) options fileExists rfl)
  rintro on off ⟨result, system, shown⟩
  have less : off.journal.filter Event.isShown = (on.journal.filter Event.isShown).filter fun e => !e.isRemark :=
    shown.trans ((List.map_congr_left fun e _ => e.relabel_id).trans (List.map_id _))
  have called (e : Event) (call : e.isCall) : e.isShown := by cases e <;> first | rfl | cases call
  have unremarked (e : Event) (call : e.isCall) : !e.isRemark := by cases e <;> first | rfl | cases call
  refine ⟨result.trans on.result.relabel_id, system.symm, ?_, ?_, less⟩
  · calc calls off.journal = calls (off.journal.filter Event.isShown) := (calls_filter _ called).symm
      _ = calls (on.journal.filter Event.isShown) := by rw [less, calls_filter _ unremarked]
      _ = calls on.journal := calls_filter _ called
  · calc warnings off.journal = warnings (off.journal.filter Event.isShown) := (warnings_filter _ fun _ => rfl).symm
      _ = warnings (on.journal.filter Event.isShown) := by rw [less, warnings_filter _ fun _ => rfl]
      _ = warnings on.journal := warnings_filter _ fun _ => rfl

/-- The eight remarks of a small load are all that is missing without them. -/
example : [true, false].map (fun wanted => ((({} : Loader).withLogging wanted).load (oneGraph [constantB, sumA]) {}
    (fun _ => false) Recorder.renderer {}).map fun o => (o.journal.filter Event.isShown).length) =
    [some 18, some 10] := by
  decide +kernel

end MaterialGraph
