import MaterialGraph.Proofs.Recorder

/-!
# Transcripts of a recording renderer

Whatever is asked of a recording renderer that starts empty, and whatever types of nodes it is told to refuse, what it
holds can be told from the calls and their replies. It numbers its nodes from zero; a node lives from the call that
creates it to the next one that deletes it.

* `Transcript` : calls with their replies, and the recorder that they lead to.
* `IsAlive` : what a journal creates and does not delete afterwards. `removed` : what it deletes with success.
* `Transcript.bound` : where a value that is bound comes from.
* `KeepsBooks` : the books of a recorder agree with a journal. `Transcript.keepsBooks` : they do after any calls.
-/

namespace MaterialGraph

set_option autoImplicit false

variable {e : Event} {j : List Event} {h g : Handle}

/-! ## What a journal says of a handle -/

namespace Event

/-- The handle that is deleted, if the renderer obeys. -/
def removed? : Event → Option Handle
  | acted (.delete h) (.ok _) => some h
  | _ => none

end Event

/-- The handles that are deleted with success, in the order of the events. -/
def removed (j : List Event) : List Handle := j.filterMap Event.removed?

/-- A journal, which lists the latest event first, creates a handle and does not ask to delete it afterwards. -/
def IsAlive (j : List Event) (h : Handle) : Prop :=
  ∃ later type earlier, j = later ++ .created type (.ok h) :: earlier ∧ h ∉ deleted later

theorem not_isAlive_nil : ¬ IsAlive [] h := by
  rintro ⟨later, type, earlier, nothing, -⟩
  simp at nothing

/-- What is alive after one more event: what it creates, and what was alive and is not deleted by it. -/
theorem isAlive_cons : IsAlive (e :: j) h ↔ e.created? = some h ∨ e.deleted? ≠ some h ∧ IsAlive j h := by
  constructor
  · rintro ⟨later, type, earlier, split, kept⟩
    cases later with
    | nil =>
        cases split
        exact .inl rfl
    | cons x later =>
        cases split
        refine .inr ⟨fun gone => kept ?_, later, type, earlier, rfl, fun gone => kept ?_⟩
        · exact List.mem_filterMap.2 ⟨e, List.mem_cons_self, gone⟩
        · exact ((List.sublist_cons_self e later).filterMap _).subset gone
  · rintro (new | ⟨kept, later, type, earlier, rfl, old⟩)
    · cases e with
      | created type reply =>
          cases reply with
          | error => cases new
          | ok g =>
              cases new
              exact ⟨[], type, j, rfl, List.not_mem_nil⟩
      | _ => cases new
    · refine ⟨e :: later, type, earlier, rfl, fun gone => ?_⟩
      obtain ⟨x, mem, there⟩ := List.mem_filterMap.1 gone
      rcases List.mem_cons.1 mem with rfl | mem
      · exact kept there
      · exact old (List.mem_filterMap.2 ⟨x, mem, there⟩)

theorem isAlive_created (type : NodeType) : IsAlive (.created type (.ok g) :: j) h ↔ h = g ∨ IsAlive j h := by
  rw [isAlive_cons]
  change some g = some h ∨ (none : Option Handle) ≠ some h ∧ IsAlive j h ↔ _
  rw [Option.some.injEq, eq_comm, and_iff_right (Option.some_ne_none h).symm]

theorem isAlive_created_error (type : NodeType) (error : CallError) :
    IsAlive (.created type (.error error) :: j) h ↔ IsAlive j h := by
  rw [isAlive_cons]
  change (none : Option Handle) = some h ∨ (none : Option Handle) ≠ some h ∧ IsAlive j h ↔ _
  rw [or_iff_right (Option.some_ne_none h).symm, and_iff_right (Option.some_ne_none h).symm]

theorem isAlive_delete (reply : Except CallError Unit) :
    IsAlive (.acted (.delete g) reply :: j) h ↔ h ≠ g ∧ IsAlive j h := by
  rw [isAlive_cons]
  change (none : Option Handle) = some h ∨ some g ≠ some h ∧ IsAlive j h ↔ _
  rw [or_iff_right (Option.some_ne_none h).symm, ne_eq, Option.some.injEq, eq_comm]

theorem isAlive_acted {a : Action} (kept : ∀ g, a ≠ .delete g) (reply : Except CallError Unit) :
    IsAlive (.acted a reply :: j) h ↔ IsAlive j h := by
  rw [isAlive_cons]
  have other : (Event.acted a reply).deleted? = none := by
    cases a <;> first | rfl | exact absurd rfl (kept _)
  rw [other]
  change (none : Option Handle) = some h ∨ (none : Option Handle) ≠ some h ∧ IsAlive j h ↔ _
  rw [or_iff_right (Option.some_ne_none h).symm, and_iff_right (Option.some_ne_none h).symm]

namespace Recorder

variable {s : Recorder}

/-! ## How many nodes live after a call -/

theorem length_nodes : s.nodes.length = s.live.size := by rw [nodes, List.length_map, Std.TreeMap.length_toList]

theorem length_nodes_modify (f : RecordedNode → RecordedNode) :
    (s.modify h f).2.nodes.length = s.nodes.length := by
  rw [length_nodes, length_nodes, modify]
  cases live : s.node? h with
  | none => rfl
  | some n =>
      have there : s.live.contains h.id := by
        rw [Std.TreeMap.contains_eq_isSome_getElem?]
        exact Option.isSome_iff_exists.2 ⟨n, live⟩
      change (s.live.insert h.id (f n)).size = _
      rw [Std.TreeMap.size_insert, if_pos there]

theorem length_nodes_create {type : NodeType} (fresh : s.node? ⟨s.created⟩ = none)
    (made : (create type s).1 = .ok h) : (create type s).2.nodes.length = s.nodes.length + 1 := by
  rw [length_nodes, length_nodes]
  unfold create at made ⊢
  split at made
  · cases made
  · next able =>
    rw [if_neg able]
    have absent : s.live.contains s.created = false := by
      rw [Std.TreeMap.contains_eq_isSome_getElem?]
      exact congrArg Option.isSome fresh
    change (s.live.insert s.created { type := type }).size = _
    rw [Std.TreeMap.size_insert, absent]
    rfl

theorem length_nodes_delete_error {error : CallError} (refused : (act (.delete h) s).1 = .error error) :
    (act (.delete h) s).2.nodes.length = s.nodes.length := by
  unfold act at refused ⊢
  dsimp only at refused ⊢
  split at refused
  · cases refused
  · rfl

theorem length_nodes_delete (live : (s.node? h).isSome) :
    (act (.delete h) s).2.nodes.length + 1 = s.nodes.length := by
  rw [length_nodes, length_nodes]
  obtain ⟨n, there⟩ := Option.isSome_iff_exists.1 live
  have held : s.live.contains h.id := by
    rw [Std.TreeMap.contains_eq_isSome_getElem?]
    exact live
  have some : s.live.size ≠ 0 := by
    have := Std.TreeMap.isEmpty_eq_false_of_contains held
    rwa [Std.TreeMap.isEmpty_eq_size_eq_zero, beq_eq_false_iff_ne] at this
  unfold act
  dsimp only
  rw [there]
  change (s.live.erase h.id).size + 1 = _
  rw [Std.TreeMap.size_erase, if_pos held]
  omega

end Recorder

/-! ## All calls -/

/-- What can have been asked of a recording renderer since it was empty, the latest call first, with the replies, and
what it has become. At any time it can be told to refuse nodes of a type. -/
inductive Transcript : List Event → Recorder → Prop
  | start : Transcript [] {}
  | failing {j : List Event} {r : Recorder} (before : Transcript j r) (type : NodeType) :
      Transcript j (r.failCreationOf type)
  | create {j : List Event} {r : Recorder} (before : Transcript j r) (type : NodeType) :
      Transcript (.created type (Recorder.create type r).1 :: j) (Recorder.create type r).2
  | act {j : List Event} {r : Recorder} (before : Transcript j r) (a : Action) :
      Transcript (.acted a (Recorder.act a r).1 :: j) (Recorder.act a r).2

namespace Transcript

open Recorder

variable {r : Recorder} {n : RecordedNode} {key : InputKey} {v : Bound}

/-- The handles that are created are the numbers from zero on. -/
theorem created_reverse (t : Transcript j r) :
    (MaterialGraph.created j).reverse = (List.range r.created).map Handle.mk := by
  induction t with
  | start => rfl
  | failing _ type ih => exact ih
  | @create j r _ type ih =>
      cases reply : (Recorder.create type r).1 with
      | error error =>
          rw [create_error reply]
          exact ih
      | ok g =>
          obtain ⟨rfl, more⟩ := create_ok reply
          rw [more, List.range_succ, List.map_append, ← ih]
          exact List.reverse_cons
  | act _ a ih =>
      rw [created_acted, created_act]
      exact ih

/-- A handle is live if and only if it has been created and has not been deleted since. -/
theorem isSome_node?_iff (t : Transcript j r) : (r.node? h).isSome ↔ IsAlive j h := by
  induction t with
  | start => exact iff_of_false (by rintro ⟨⟩) not_isAlive_nil
  | failing _ type ih => exact ih
  | @create j r _ type ih =>
      cases reply : (Recorder.create type r).1 with
      | error error => rw [create_error reply, isAlive_created_error, ih]
      | ok g =>
          rw [node?_create reply, isAlive_created, ← ih]
          by_cases same : h = g <;> simp [same]
  | @act j r _ a ih =>
      cases a with
      | delete g =>
          rw [node?_delete, isAlive_delete, ← ih]
          by_cases same : h = g <;> simp [same]
      | bind | rename => rw [isSome_node?_act (by rintro _ ⟨⟩), isAlive_acted (by rintro _ ⟨⟩), ih]

theorem numbered (t : Transcript j r) (live : (r.node? h).isSome) : h.id < r.created := by
  obtain ⟨later, type, earlier, rfl, -⟩ := t.isSome_node?_iff.1 live
  have made : h ∈ (MaterialGraph.created (later ++ .created type (.ok h) :: earlier)).reverse := by
    rw [List.mem_reverse, MaterialGraph.created, List.filterMap_append]
    exact List.mem_append_right _ List.mem_cons_self
  rw [t.created_reverse] at made
  obtain ⟨id, mem, rfl⟩ := List.mem_map.1 made
  exact List.mem_range.1 mem

theorem node?_next (t : Transcript j r) : r.node? ⟨r.created⟩ = none := by
  rw [← Option.not_isSome_iff_eq_none]
  exact fun live => Nat.lt_irrefl _ (t.numbered live)

/-- What has been deleted with success has been created before and is no longer live. -/
theorem of_mem_removed (t : Transcript j r) (gone : h ∈ removed j) : r.node? h = none ∧ h.id < r.created := by
  induction t with
  | start => cases gone
  | failing _ type ih => exact ih gone
  | @create j r _ type ih =>
      obtain ⟨dead, old⟩ := ih gone
      cases reply : (Recorder.create type r).1 with
      | error error =>
          rw [create_error reply]
          exact ⟨dead, old⟩
      | ok g =>
          obtain ⟨rfl, more⟩ := create_ok reply
          have other : h ≠ ⟨r.created⟩ := by
            rintro rfl
            exact Nat.lt_irrefl _ old
          rw [node?_create reply, if_neg other, more]
          exact ⟨dead, Nat.lt_succ_of_lt old⟩
  | @act j r before a ih =>
      rw [created_act]
      by_cases here : (Event.acted a (Recorder.act a r).1).removed? = some h
      · cases a with
        | delete g =>
            cases reply : (Recorder.act (.delete g) r).1 with
            | error error =>
                rw [reply] at here
                cases here
            | ok =>
                rw [reply] at here
                cases here
                exact ⟨by rw [node?_delete, if_pos rfl], before.numbered (delete_ok_iff.1 reply)⟩
        | bind | rename => cases here
      · obtain ⟨e, mem, there⟩ := List.mem_filterMap.1 gone
        rcases List.mem_cons.1 mem with rfl | mem
        · exact absurd there here
        · obtain ⟨dead, old⟩ := ih (List.mem_filterMap.2 ⟨e, mem, there⟩)
          refine ⟨?_, old⟩
          cases a with
          | delete g =>
              rw [node?_delete, dead]
              exact ite_self _
          | bind | rename =>
              rw [← Option.not_isSome_iff_eq_none, isSome_node?_act (by rintro _ ⟨⟩), dead]
              exact nofun

/-- No deletion of a handle succeeds twice. -/
theorem nodup_removed (t : Transcript j r) : (removed j).Nodup := by
  induction t with
  | start => exact List.nodup_nil
  | failing _ type ih => exact ih
  | create _ type ih => exact ih
  | @act j r before a ih =>
      cases reply : (Recorder.act a r).1 with
      | error error => cases a <;> exact ih
      | ok =>
          cases a with
          | delete g =>
              refine List.nodup_cons.2 ⟨fun gone => ?_, ih⟩
              have live := delete_ok_iff.1 reply
              rw [(before.of_mem_removed gone).1] at live
              cases live
          | bind | rename => exact ih

/-- As many nodes are live as have been created and not been deleted with success. -/
theorem length_nodes (t : Transcript j r) : r.nodes.length + (removed j).length = r.created := by
  induction t with
  | start => rfl
  | failing _ type ih => exact ih
  | @create j r before type ih =>
      change _ + (removed j).length = _
      cases reply : (Recorder.create type r).1 with
      | error error =>
          rw [create_error reply]
          exact ih
      | ok g =>
          rw [length_nodes_create before.node?_next reply, (create_ok reply).2]
          omega
  | @act j r before a ih =>
      rw [created_act, ← ih]
      have kept (h : Handle) (f : RecordedNode → RecordedNode) :
          (r.modify h f).2.nodes.length + (removed j).length = r.nodes.length + (removed j).length := by
        rw [length_nodes_modify]
      cases a with
      | rename g name => exact kept g _
      | bind g key value =>
          change (Recorder.act (.bind g key value) r).2.nodes.length + (removed j).length = _
          rw [act_bind]
          split
          · exact kept g _
          · rfl
      | delete g =>
          cases reply : (Recorder.act (.delete g) r).1 with
          | error error => exact congrArg (· + _) (length_nodes_delete_error reply)
          | ok =>
              rw [← length_nodes_delete (delete_ok_iff.1 reply)]
              exact Nat.succ_add_eq_add_succ _ _ |>.symm

/-- A node that is bound to an input of a live node was live when it was bound, and no binding of this input has been
obeyed since. -/
theorem bound (t : Transcript j r) (live : r.node? h = some n) (value : n.bound key = some v) :
    ∃ later earlier r₀, j = later ++ .acted (.bind h key v) (.ok ()) :: earlier ∧ Transcript earlier r₀ ∧
      r₀.accepts v = true ∧ ∀ w, .acted (.bind h key w) (.ok ()) ∉ later := by
  induction t generalizing n with
  | start => cases live
  | failing _ type ih => exact ih live value
  | @create j r before type ih =>
      have old : r.node? h = some n := by
        cases reply : (Recorder.create type r).1 with
        | error error => rwa [create_error reply] at live
        | ok g =>
            rw [node?_create reply] at live
            split at live
            · cases live
              cases value
            · exact live
      obtain ⟨later, earlier, r₀, rfl, then', accepted, since⟩ := ih old value
      refine ⟨_ :: later, earlier, r₀, rfl, then', accepted, fun w mem => ?_⟩
      exact since w ((List.mem_cons.1 mem).resolve_left nofun)
  | @act j r before a ih =>
      rcases bound_act live value with ⟨rfl, obeyed, accepted⟩ | ⟨n₀, old, value₀, other⟩
      · rw [obeyed]
        exact ⟨[], j, r, rfl, before, accepted, fun _ => List.not_mem_nil⟩
      · obtain ⟨later, earlier, r₀, rfl, then', accepted, since⟩ := ih old value₀
        refine ⟨_ :: later, earlier, r₀, rfl, then', accepted, fun w mem => ?_⟩
        rcases List.mem_cons.1 mem with same | mem
        · obtain ⟨rfl, obeyed⟩ := Event.acted.inj same
          exact other w rfl obeyed.symm
        · exact since w mem

/-- Every call to delete a handle is counted, whether or not it succeeds. -/
theorem deletionsOf (t : Transcript j r) : r.deletionsOf h = (deleted j).count h := by
  induction t with
  | start => exact Std.TreeMap.getD_emptyc
  | failing _ type ih => exact ih
  | create _ type ih => rwa [deletionsOf_create]
  | act _ a ih =>
      cases a with
      | delete g =>
          change _ = (g :: deleted _).count h
          rw [deletionsOf_delete, ih, List.count_cons]
          by_cases same : h = g
          · simp [same]
          · simp [same, Ne.symm same]
      | bind g key value =>
          rw [deleted_acted (by rintro _ ⟨⟩), ← ih, act_bind]
          split
          · exact deletionsOf_modify _ _ _
          · rfl
      | rename g name =>
          rw [deleted_acted (by rintro _ ⟨⟩), ← ih, act_rename, deletionsOf_modify]

end Transcript

/-! ## The books of a recorder -/

/-- The books of a recorder agree with the calls that have been made, the latest first. -/
structure KeepsBooks (r : Recorder) (j : List Event) : Prop where
  /-- The handles that have been returned are the numbers from zero on, each once. -/
  numbered : (created j).reverse = (List.range r.created).map Handle.mk
  /-- A node is live if and only if its handle has been returned and its deletion has not been asked for since. -/
  live_iff : ∀ h, (r.node? h).isSome ↔ IsAlive j h
  /-- A live node can be deleted, and nothing else can. -/
  delete_ok_iff : ∀ h, (Recorder.act (.delete h) r).1 = .ok () ↔ (r.node? h).isSome
  /-- No handle has been deleted with success twice. -/
  removed_once : (removed j).Nodup
  /-- The nodes that have been created are those that are live and those that have been deleted with success. -/
  count : r.nodes.length + (removed j).length = r.created
  /-- Every call to delete a handle is counted, whether or not it succeeds. -/
  counted : ∀ h, r.deletionsOf h = (deleted j).count h
  /-- A creation that fails leaves all live nodes as they are. -/
  create_error : ∀ type e, (Recorder.create type r).1 = .error e → ∀ h, (Recorder.create type r).2.node? h = r.node? h
  /-- An action that fails leaves all live nodes as they are. -/
  act_error : ∀ a e, (Recorder.act a r).1 = .error e → ∀ h, (Recorder.act a r).2.node? h = r.node? h
  /-- A node that is bound to an input of a live node was live when it was bound there last. -/
  bound_live : ∀ h n key u, r.node? h = some n → n.bound key = some (.node u) →
    ∃ later earlier r₀, j = later ++ .acted (.bind h key (.node u)) (.ok ()) :: earlier ∧ Transcript earlier r₀ ∧
      (r₀.node? u).isSome ∧ ∀ w, .acted (.bind h key w) (.ok ()) ∉ later

/-- Whatever calls are made to a recording renderer that starts empty, and whatever types of nodes it is told to refuse
between them, its books agree with the calls. -/
theorem Transcript.keepsBooks {r : Recorder} (t : Transcript j r) : KeepsBooks r j where
  numbered := t.created_reverse
  live_iff _ := t.isSome_node?_iff
  delete_ok_iff _ := Recorder.delete_ok_iff
  removed_once := t.nodup_removed
  count := t.length_nodes
  counted _ := t.deletionsOf
  create_error _ _ refused _ := by rw [Recorder.create_error refused]
  act_error _ _ refused _ := Recorder.node?_act_error refused
  bound_live _ _ _ _ live value := t.bound live value

/-- Nodes are created and refused, and one is deleted too early, in time and too late. -/
theorem Transcript.keepsBooks_exercised :
    ∃ j r, Transcript j r ∧ created j = [⟨2⟩, ⟨1⟩, ⟨0⟩] ∧ deleted j = [⟨1⟩, ⟨1⟩, ⟨0⟩] ∧ removed j = [⟨1⟩] ∧
      r.nodes.map (·.1) = [⟨0⟩, ⟨2⟩] ∧ KeepsBooks r j := by
  have t := ((((((((((Transcript.start.act (.delete ⟨0⟩)).create .arithmetic).create .constantTexture).act
    (.bind ⟨0⟩ .color0 (.node ⟨1⟩))).failing .noise3d).create .noise3d).act (.delete ⟨1⟩)).act (.delete ⟨1⟩)).act
      (.bind ⟨0⟩ .color1 (.node ⟨1⟩))).create .constantTexture)
  exact ⟨_, _, t, by decide +kernel, by decide +kernel, by decide +kernel, by decide +kernel,
    t.keepsBooks⟩

end MaterialGraph
