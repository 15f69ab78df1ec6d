import Mathlib.Data.List.Nodup
import MaterialGraph.Proofs.Journal

/-!
# Assemblies from journals

The edits of a journal tell how the assembly has come about, so what is said of an assembly can be said of every moment
of a load.

* `replay` : the assembly that the edits among some events lead to.
* `Faithful` : a context whose assembly is the replay of its journal.
* `child?_replay` : a child changes by nothing but a note of a child of that name.
* `Renderer.follow` : the state to which the calls among some events lead a renderer.
* `Always` : something holds of the assembly and the renderer at every moment up to a context.
-/

namespace MaterialGraph

set_option autoImplicit false

open Build Assembly

variable {σ : Type} {r : Renderer σ} {c c' : Context σ}

def Event.replayOn (a : Assembly) : Event → Assembly
  | edited e => a.apply e
  | _ => a

/-- The assembly that the edits among some events lead to, in order. -/
def replay (j : List Event) : Assembly := j.foldl Event.replayOn {}

theorem replay_reverse_cons (e : Event) (j : List Event) :
    replay (e :: j).reverse = e.replayOn (replay j.reverse) := by
  simp [replay]

/-- The composite and the name for which a child is noted. -/
def Event.noted? : Event → Option (PartId × String)
  | edited (.child id name _) => some (id, name)
  | _ => none

/-- The composites and names for which children are noted, in the order of the events. -/
def noted (j : List Event) : List (PartId × String) := j.filterMap Event.noted?

theorem Event.IsRoutine.noted? {e : Event} (h : e.IsRoutine) : e.noted? = none := by
  unfold Event.noted?
  split
  · exact h.elim
  · rfl

/-! ## Journals of fitting edits -/

/-- Each edit of a journal, which lists the latest event first, fits the assembly of its moment. -/
def Fits : List Event → Prop
  | [] => True
  | e :: j => (∀ x, e = .edited x → Admits (replay j.reverse) x) ∧ Fits j

theorem Fits.of_append {j j' : List Event} (h : Fits (j ++ j')) : Fits j' := by
  induction j with
  | nil => exact h
  | cons e j ih => exact ih h.2

theorem extends_replayOn {a : Assembly} {e : Event} (fits : ∀ x, e = .edited x → Admits a x) :
    Extends a (e.replayOn a) := by
  cases e with
  | edited x => exact (fits x rfl).extends
  | _ => exact .refl a

theorem Fits.extends (later before : List Event) (fits : Fits (later ++ before)) :
    Extends (replay before.reverse) (replay (later ++ before).reverse) := by
  induction later with
  | nil => exact .refl _
  | cons e later ih =>
      rw [List.cons_append, replay_reverse_cons]
      exact (ih fits.2).trans (extends_replayOn fits.1)

/-- A fitting edit changes the child of a name only by noting it. -/
theorem child?_replayOn {a : Assembly} {e : Event} {id : PartId} {name : String}
    (fits : ∀ x, e = .edited x → Admits a x) (other : e.noted? ≠ some (id, name)) :
    (e.replayOn a).child? id name = a.child? id name := by
  cases e with
  | edited x =>
      have fits := fits x rfl
      cases x with
      | add p =>
          cases p with
          | leaf l => exact child?_add_leaf l name
          | composite k =>
              obtain ⟨g, rfl⟩ := fits
              exact child?_add_composite g name
      | leaf x l =>
          obtain ⟨l₀, leaf, -⟩ := fits
          exact child?_congr (composite?_leaf leaf l) name
      | child j n x =>
          refine child?_child_of_ne ?_ x
          by_cases hj : j = id
          · exact .inr fun hn => other (by rw [hj, hn]; rfl)
          · exact .inl hj
      | socket => exact child?_socket _ _ name
      | edge => exact child?_edge _ name
      | _ => rfl
  | _ => rfl

/-- What is noted later alone can change a child. -/
theorem child?_replay (later before : List Event) {id : PartId} {name : String} (fits : Fits (later ++ before))
    (other : (id, name) ∉ noted later) :
    (replay (later ++ before).reverse).child? id name = (replay before.reverse).child? id name := by
  induction later with
  | nil => rfl
  | cons e later ih =>
      have here : e.noted? ≠ some (id, name) := fun he =>
        other (List.mem_filterMap.2 ⟨e, List.mem_cons_self, he⟩)
      have rest : (id, name) ∉ noted later := fun h =>
        other (((List.sublist_cons_self e later).filterMap _).subset h)
      rw [List.cons_append, replay_reverse_cons]
      exact (child?_replayOn fits.1 here).trans (ih fits.2 rest)

/-- Only a child that has been noted is there. -/
theorem mem_noted_of_child? {j : List Event} {id x : PartId} {name : String} (fits : Fits j)
    (there : (replay j.reverse).child? id name = some x) : (id, name) ∈ noted j := by
  refine Decidable.byContradiction fun absent => ?_
  have start := child?_replay j [] (by rwa [List.append_nil]) absent
  rw [List.append_nil, there] at start
  cases start

/-- A child stays if none is noted twice. -/
theorem child?_replay_of_nodup (later before : List Event) {id x : PartId} {name : String}
    (fits : Fits (later ++ before)) (once : (noted (later ++ before)).Nodup)
    (there : (replay before.reverse).child? id name = some x) :
    (replay (later ++ before).reverse).child? id name = some x := by
  rw [noted, List.filterMap_append] at once
  have other : (id, name) ∉ noted later := fun mem =>
    List.disjoint_of_nodup_append once mem (mem_noted_of_child? fits.of_append there)
  rw [child?_replay later before fits other, there]

/-! ## Contexts -/

/-- The assembly of a context is the replay of its journal, in which every edit fits. -/
structure Faithful (c : Context σ) : Prop where
  assembly : replay c.journal.reverse = c.assembly
  fits : Fits c.journal

/-- What a journal tells leaves the parts what they are of which its beginning tells. -/
theorem Faithful.extends {c c' : Context σ} (faithful : Faithful c) (faithful' : Faithful c')
    (suffix : c.journal <:+ c'.journal) : Extends c.assembly c'.assembly := by
  obtain ⟨later, journal⟩ := suffix
  have fits := faithful'.fits
  rw [← journal] at fits
  rw [← faithful.assembly, ← faithful'.assembly, ← journal]
  exact fits.extends

theorem Faithful.start (s : σ) : Faithful ({ system := s } : Context σ) := ⟨rfl, trivial⟩

theorem Faithful.event {e : Event} {c c' : Context σ} (faithful : Faithful c) (journal : c'.journal = e :: c.journal)
    (assembly : c'.assembly = e.replayOn c.assembly) (fits : ∀ x, e = .edited x → Admits c.assembly x) :
    Faithful c' where
  assembly := by rw [journal, replay_reverse_cons, faithful.assembly, assembly]
  fits := by
    rw [journal]
    exact ⟨by rw [faithful.assembly]; exact fits, faithful.fits⟩

/-- A new composite is told by its edit. -/
theorem Faithful.composite {c : Context σ} (faithful : Faithful c) (g : Graph) :
    Faithful (c.edit (.add (.composite { graph := g }))) := by
  refine faithful.event rfl rfl fun x hx => ?_
  cases hx
  exact ⟨g, rfl⟩

/-- A mark fits anywhere. -/
theorem Faithful.mark {c : Context σ} (faithful : Faithful c) {e : Edit} (mark : IsMark e) : Faithful (c.edit e) := by
  refine faithful.event rfl rfl fun x hx => ?_
  cases hx
  cases mark <;> trivial

theorem Build.Moves.faithful (h : Moves r c c') (faithful : Faithful c) : Faithful c' := by
  induction h with
  | refl => exact faithful
  | tail _ move ih =>
      cases move with
      | message message => cases message <;> exact ih.event rfl rfl (fun _ he => Event.noConfusion he)
      | edit fits =>
          refine ih.event rfl rfl fun x hx => ?_
          cases hx
          exact fits
      | create type => exact ih.event rfl rfl (fun _ he => Event.noConfusion he)
      | act a => exact ih.event rfl rfl (fun _ he => Event.noConfusion he)

/-! ## The renderer at every moment -/

def Event.answerOn (r : Renderer σ) (s : σ) : Event → σ
  | created type _ => (r.create type s).2
  | acted a _ => (r.act a s).2
  | _ => s

/-- The state to which the calls among some events lead a renderer, in order. -/
def Renderer.follow (r : Renderer σ) (s : σ) (j : List Event) : σ := j.foldl (Event.answerOn r) s

theorem follow_reverse_cons (s : σ) (e : Event) (j : List Event) :
    r.follow s (e :: j).reverse = e.answerOn r (r.follow s j.reverse) := by
  simp [Renderer.follow]

/-- A context is what its journal tells, and the assembly and the renderer have satisfied `P` at every moment. -/
structure Always (r : Renderer σ) (s : σ) (P : Assembly → σ → Prop) (c : Context σ) : Prop where
  assembly : replay c.journal.reverse = c.assembly
  system : r.follow s c.journal.reverse = c.system
  moment : ∀ j, j <:+ c.journal → P (replay j.reverse) (r.follow s j.reverse)

namespace Always

variable {s : σ} {P : Assembly → σ → Prop}

theorem start (now : P {} s) : Always r s P { system := s } := by
  refine ⟨rfl, rfl, fun j hj => ?_⟩
  rw [List.suffix_nil.1 hj]
  exact now

theorem now (h : Always r s P c) : P c.assembly c.system := by
  have now := h.moment c.journal List.suffix_rfl
  rwa [h.assembly, h.system] at now

theorem event (h : Always r s P c) {e : Event} (journal : c'.journal = e :: c.journal)
    (assembly : c'.assembly = e.replayOn c.assembly) (system : c'.system = e.answerOn r c.system)
    (now : P c'.assembly c'.system) : Always r s P c' where
  assembly := by rw [journal, replay_reverse_cons, h.assembly, assembly]
  system := by rw [journal, follow_reverse_cons, h.system, system]
  moment j hj := by
    rw [journal, List.suffix_cons_iff] at hj
    rcases hj with rfl | hj
    · rw [replay_reverse_cons, follow_reverse_cons, h.assembly, h.system, ← assembly, ← system]
      exact now
    · exact h.moment j hj

theorem push (h : Always r s P c) {e : Event} (message : IsMessage e) : Always r s P (c.push e) := by
  cases message <;> exact h.event rfl rfl rfl h.now

theorem edit (h : Always r s P c) {e : Edit} (now : P (c.assembly.apply e) c.system) : Always r s P (c.edit e) :=
  h.event rfl rfl rfl now

theorem created (h : Always r s P c) (type : NodeType) (now : P c.assembly (r.create type c.system).2) :
    Always r s P (c.created r type) :=
  h.event rfl rfl rfl now

theorem acted (h : Always r s P c) {a : Action} (now : P c.assembly (r.act a c.system).2) :
    Always r s P (c.acted r a) :=
  h.event rfl rfl rfl now

/-- What holds at every moment holds after every beginning of the journal in order. -/
theorem after (h : Always r s P c) {before later : List Event} (split : c.journal.reverse = before ++ later) :
    P (replay before) (r.follow s before) := by
  have hj : before.reverse <:+ c.journal := by
    rw [← List.reverse_reverse c.journal, split, List.reverse_append]
    exact List.suffix_append _ _
  have now := h.moment _ hj
  rwa [List.reverse_reverse] at now

end Always

end MaterialGraph
