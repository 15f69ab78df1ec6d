import MaterialGraph.Proofs.Handover
import MaterialGraph.Proofs.Mirror.Loads
import MaterialGraph.Proofs.Recorder

/-!
# Recorders that already hold nodes

* `Recorder.Shifted base s t` : the nodes of `t` are those of `base`, and those of `s` under later handles.
* `Recorder.shift` : so a recorder is seen in another one that already holds nodes.
* `load_shifted` : what a recorder holds before a load does not matter to the load, nor the load to what it holds.
-/

namespace MaterialGraph

set_option autoImplicit false

def Handle.shift (n : Nat) (h : Handle) : Handle := ⟨n + h.id⟩

theorem Handle.shift_injective (n : Nat) : Function.Injective (Handle.shift n) := by
  rintro ⟨i⟩ ⟨j⟩ h
  cases Nat.add_left_cancel (congrArg Handle.id h)
  rfl

def RecordedNode.relabel (ρ : Handle → Handle) (n : RecordedNode) : RecordedNode :=
  { n with bound := fun key => (n.bound key).map (Bound.relabel ρ) }

theorem RecordedNode.relabel_bind (ρ : Handle → Handle) (n : RecordedNode) (key : InputKey) (value : Bound) :
    (n.bind key value).relabel ρ = (n.relabel ρ).bind key (value.relabel ρ) := by
  unfold bind relabel
  congr 1
  funext k
  dsimp only
  split <;> rfl

namespace Recorder

variable {base s t : Recorder}

/-- Its nodes are those of a recorder `base`, and those of a recorder `s` under later handles. -/
structure Shifted (base s t : Recorder) : Prop where
  created : t.created = base.created + s.created
  failing : t.failing = s.failing
  old : ∀ h : Handle, h.id < base.created → t.node? h = base.node? h
  new : ∀ h : Handle, t.node? (h.shift base.created) = (s.node? h).map (RecordedNode.relabel (Handle.shift base.created))
  oldDeletions : ∀ h : Handle, h.id < base.created → t.deletionsOf h = base.deletionsOf h
  newDeletions : ∀ h : Handle,
    t.deletionsOf (h.shift base.created) = base.deletionsOf (h.shift base.created) + s.deletionsOf h

theorem shift_ne_of_lt {h g : Handle} (hlt : g.id < base.created) : g ≠ h.shift base.created := by
  rintro rfl
  exact absurd hlt (by simp [Handle.shift])

/-! ## Calls -/

namespace Shifted

variable (h : Shifted base s t)

include h

theorem create (type : NodeType) :
    (Recorder.create type t).1 = (Recorder.create type s).1.map (Handle.shift base.created) ∧
      Shifted base (Recorder.create type s).2 (Recorder.create type t).2 := by
  by_cases refused : s.failing.contains type
  · have same (r : Recorder) (hr : r.failing = s.failing) : Recorder.create type r = (.error creationFailure, r) := by
      rw [Recorder.create, hr, if_pos refused]
    rw [same s rfl, same t h.failing]
    exact ⟨rfl, h⟩
  · have first (r : Recorder) (hr : r.failing = s.failing) : (Recorder.create type r).1 = .ok ⟨r.created⟩ := by
      rw [Recorder.create, hr, if_neg refused]
    have hs := first s rfl
    have ht := first t h.failing
    refine ⟨by rw [hs, ht, h.created]; rfl, ?_, ?_, ?_, ?_, ?_, ?_⟩
    · rw [(create_ok hs).2, (create_ok ht).2, h.created, Nat.add_assoc]
    · rw [failing_create, failing_create, h.failing]
    · intro g hg
      have : g ≠ ⟨t.created⟩ := by
        rintro rfl
        rw [h.created] at hg
        exact absurd hg (Nat.not_lt.2 (Nat.le_add_right _ _))
      rw [node?_create ht, if_neg this, h.old g hg]
    · intro g
      have next : (⟨t.created⟩ : Handle) = Handle.shift base.created ⟨s.created⟩ := by
        rw [h.created]
        rfl
      rw [node?_create hs, node?_create ht, next]
      by_cases hg : g = ⟨s.created⟩
      · rw [if_pos hg, if_pos (congrArg _ hg)]
        rfl
      · rw [if_neg hg, if_neg fun e => hg (Handle.shift_injective _ e), h.new]
    · intro g hg
      rw [deletionsOf_create, h.oldDeletions g hg]
    · intro g
      rw [deletionsOf_create, deletionsOf_create, h.newDeletions]

theorem modify {f g : RecordedNode → RecordedNode}
    (hf : ∀ n, g (n.relabel (Handle.shift base.created)) = (f n).relabel (Handle.shift base.created)) (x : Handle) :
    (t.modify (x.shift base.created) g).1 = (s.modify x f).1 ∧
      Shifted base (s.modify x f).2 (t.modify (x.shift base.created) g).2 := by
  refine ⟨?_, ?_, ?_, ?_, ?_, ?_, ?_⟩
  · unfold Recorder.modify
    rw [h.new]
    cases s.node? x <;> rfl
  · rw [created_modify, created_modify, h.created]
  · rw [failing_modify, failing_modify, h.failing]
  · intro k hk
    rw [node?_modify, if_neg (shift_ne_of_lt hk), h.old k hk]
  · intro k
    rw [node?_modify, node?_modify, h.new]
    by_cases hk : k = x
    · rw [if_pos hk, if_pos (congrArg _ hk), Option.map_map, Option.map_map]
      exact congrArg (Option.map · _) (funext hf)
    · rw [if_neg hk, if_neg fun e => hk (Handle.shift_injective _ e)]
  · intro k hk
    rw [deletionsOf_modify, h.oldDeletions k hk]
  · intro k
    rw [deletionsOf_modify, deletionsOf_modify, h.newDeletions]

theorem delete (g : Handle) :
    (Recorder.act (.delete (g.shift base.created)) t).1 = (Recorder.act (.delete g) s).1 ∧
      Shifted base (Recorder.act (.delete g) s).2 (Recorder.act (.delete (g.shift base.created)) t).2 := by
  refine ⟨?_, ?_, ?_, ?_, ?_, ?_, ?_⟩
  · unfold Recorder.act
    dsimp only
    rw [h.new]
    cases s.node? g <;> rfl
  · rw [created_act, created_act, h.created]
  · rw [failing_delete, failing_delete, h.failing]
  · intro k hk
    rw [node?_delete, if_neg (shift_ne_of_lt hk), h.old k hk]
  · intro k
    rw [node?_delete, node?_delete, h.new]
    by_cases hk : k = g
    · rw [if_pos hk, if_pos (congrArg _ hk)]
      rfl
    · rw [if_neg hk, if_neg fun e => hk (Handle.shift_injective _ e)]
  · intro k hk
    rw [deletionsOf_delete, if_neg (shift_ne_of_lt hk), h.oldDeletions k hk]
  · intro k
    rw [deletionsOf_delete, deletionsOf_delete, h.newDeletions]
    by_cases hk : k = g
    · rw [if_pos hk, if_pos (congrArg _ hk), Nat.add_assoc]
    · rw [if_neg hk, if_neg fun e => hk (Handle.shift_injective _ e)]

theorem accepts (value : Bound) : t.accepts (value.relabel (Handle.shift base.created)) = s.accepts value := by
  cases value with
  | node g =>
      change (t.node? _).isSome = (s.node? g).isSome
      rw [h.new, Option.isSome_map]
  | floats x => rfl
  | word n => rfl

theorem act (a : Action) :
    (Recorder.act (a.relabel (Handle.shift base.created)) t).1 = (Recorder.act a s).1 ∧
      Shifted base (Recorder.act a s).2 (Recorder.act (a.relabel (Handle.shift base.created)) t).2 := by
  cases a with
  | bind g key value =>
      rw [Action.relabel, act_bind, act_bind, h.accepts]
      split
      · exact h.modify (fun n => (RecordedNode.relabel_bind _ n key value).symm) g
      · exact ⟨rfl, h⟩
  | rename g name =>
      rw [Action.relabel, act_rename, act_rename]
      exact h.modify (f := fun n => { n with name := some name }) (g := fun n => { n with name := some name })
        (fun _ => rfl) g
  | delete g => exact h.delete g

end Shifted

/-- A recorder seen in another one that already holds the nodes of `base`. -/
def shift (base : Recorder) : Mirror renderer renderer where
  label := Handle.shift base.created
  injective := Handle.shift_injective _
  Sees := Shifted base
  hasNames := rfl
  create h type := h.create type
  act h a := h.act a

/-- A recorder holds its own nodes, and behind them those of an empty one. -/
theorem Shifted.start (reachable : base.Reachable) : Shifted base { failing := base.failing } base where
  created := rfl
  failing := rfl
  old _ _ := rfl
  new h := by
    cases hn : base.node? (h.shift base.created) with
    | none => rfl
    | some n =>
        have := reachable.numbered (Option.isSome_iff_exists.2 ⟨n, hn⟩)
        exact absurd this (by simp [Handle.shift])
  oldDeletions _ _ := rfl
  newDeletions _ := rfl

end Recorder

/-- A load with a recorder that holds nodes does the same as one with an empty recorder that refuses the same types, but
for handles, which come later by the number of nodes that have been created before. It leaves the old nodes as they
are. -/
theorem load_shifted {s : Recorder} (reachable : s.Reachable) (l : Loader) (d : Document) (options : LoadOptions)
    (fileExists : String → Bool) :
    Option.Rel (fun o o' => o'.result = o.result.relabel (Handle.shift s.created) ∧
        l.shown o' = (l.shown o).map (Event.relabel (Handle.shift s.created)) ∧ s.Shifted o.system o'.system)
      (l.load d options fileExists Recorder.renderer { failing := s.failing })
      (l.load d options fileExists Recorder.renderer s) :=
  rel_mono (fun _ _ ⟨result, system, shown⟩ => ⟨result, shown, system⟩)
    (Loader.load_mirrors s.shift rfl (rfl : l = { l with library := l.library }) (.refl _) options fileExists
      (Recorder.Shifted.start reachable))

def oneHeld : Recorder := (Recorder.create .arithmetic {}).2

/-- With one node held before, each handle comes one number later, also the handle of the node that is deleted on the
way. -/
theorem load_shifted_oneHeld :
    ∃ o o', Loader.load {} replacedConstant {} (fun _ => false) Recorder.renderer {} = some o ∧
      Loader.load {} replacedConstant {} (fun _ => false) Recorder.renderer oneHeld = some o' ∧
        o.result.nodes = [⟨2⟩, ⟨0⟩, ⟨3⟩] ∧ o'.result = o.result.relabel (Handle.shift 1) ∧
          Loader.shown {} o' = (Loader.shown {} o).map (Event.relabel (Handle.shift 1)) ∧
            o'.system.node? ⟨0⟩ = oneHeld.node? ⟨0⟩ ∧ o'.system.deletionsOf ⟨0⟩ = 0 ∧
              o'.system.deletionsOf ⟨2⟩ = o.system.deletionsOf ⟨1⟩ := by
  have evaluated : (Loader.load {} replacedConstant {} (fun _ => false) Recorder.renderer {}).map
      (fun o => o.result.nodes) = some [⟨2⟩, ⟨0⟩, ⟨3⟩] := by decide +kernel
  obtain ⟨none, -⟩ | ⟨o, o', loaded, loaded', result, shown, shifted⟩ := rel_none_or_some
    (load_shifted (s := oneHeld) (.create .start .arithmetic) {} replacedConstant {} fun _ => false)
  · rw [show Loader.load {} replacedConstant {} (fun _ => false) Recorder.renderer {} = Option.none from none]
      at evaluated
    cases evaluated
  · rw [show Loader.load {} replacedConstant {} (fun _ => false) Recorder.renderer {} = some o from loaded]
      at evaluated
    have deletions := shifted.newDeletions ⟨1⟩
    exact ⟨o, o', loaded, loaded', Option.some.inj evaluated, result, shown, shifted.old ⟨0⟩ Nat.zero_lt_one,
      shifted.oldDeletions ⟨0⟩ Nat.zero_lt_one, deletions.trans (Nat.zero_add _)⟩

end MaterialGraph
