import MaterialGraph.Proofs.Build.Returns
import MaterialGraph.Proofs.Once

/-!
# Where parts stand

A part that is noted as a child has been added after its composite, and it is noted once. So the parts of a journal in
which all is noted so are a forest, at every moment.

* `adopted`, `sharing` : the parts that are noted as children, and those that are noted as shared.
* `Placed`, `Tidy` : an edit that puts things where they may stand, and a journal of such edits.
* `Assembly.Forest` : what a tidy journal leads to (`Tidy.forest`).
-/

namespace MaterialGraph

set_option autoImplicit false

open Build Assembly

variable {j : List Event}

/-! ## Where things are put -/

def Event.adopted? : Event → Option PartId
  | edited (.child _ _ x) => some x
  | _ => none

def Event.shared? : Event → Option PartId
  | edited (.top x) => some x
  | edited (.geometry _ x) => some x
  | edited (.freeStanding _ state) => some state.id
  | _ => none

/-- The parts that are noted as children, in the order of the events. -/
def adopted (j : List Event) : List PartId := j.filterMap Event.adopted?

/-- The parts that are noted as shared, in the order of the events. -/
def sharing (j : List Event) : List PartId := j.filterMap Event.shared?

/-- Whether an event notes no child, no socket and nothing that graphs share. -/
def Event.IsPlain : Event → Prop
  | edited (.child _ _ _) => False
  | edited (.socket _ _ _) => False
  | edited (.top _) => False
  | edited (.geometry _ _) => False
  | edited (.freeStanding _ _) => False
  | _ => True

theorem Event.IsPlain.adopted? {e : Event} (h : e.IsPlain) : e.adopted? = none := by
  unfold Event.adopted?
  split
  · exact h.elim
  · rfl

theorem Event.IsPlain.shared? {e : Event} (h : e.IsPlain) : e.shared? = none := by
  unfold Event.shared?
  split
  case h_4 => rfl
  all_goals exact h.elim

theorem Event.IsLeafwork.isPlain {e : Event} (h : e.IsLeafwork) : e.IsPlain := by
  unfold Event.IsPlain
  split
  case h_6 => trivial
  all_goals exact h

/-- The sockets that a composite has for an interface input. -/
def Assembly.sockets (a : Assembly) (id : PartId) (interface : String) : List Socket :=
  ((a.composite? id).map fun k => k.sockets.getD interface []).getD []

/-- A node of the graph of a composite has the name. -/
def Assembly.Names (a : Assembly) (id : PartId) (name : String) : Prop :=
  ∃ k, a.composite? id = some k ∧ ∃ n ∈ k.graph.nodes, n.name = name

/-- An edit, made after some events, puts a part where it may stand: a child is a new part of its own, of a larger
number than its composite, and a socket belongs to a child. -/
def Placed (j : List Event) : Edit → Prop
  | .child id name x =>
    (id < x ∧ x < (replay j.reverse).size) ∧ (x ∉ adopted j ∧ x ∉ sharing j) ∧
      (∀ l, (replay j.reverse).leaf? x = some l → l.role ≠ .wrap) ∧ (replay j.reverse).Names id name
  | .socket id _ s => ((replay j.reverse).child? id s.child).isSome
  | .top x => x < (replay j.reverse).size ∧ x ∉ adopted j
  | .geometry _ x => x < (replay j.reverse).size ∧ x ∉ adopted j
  | .freeStanding _ state => state.id < (replay j.reverse).size ∧ state.id ∉ adopted j
  | _ => True

/-- Each edit of a journal, which lists the latest event first, puts things where they may stand. -/
def Tidy : List Event → Prop
  | [] => True
  | e :: j => (∀ x, e = .edited x → Placed j x) ∧ Tidy j

theorem Tidy.of_append {j' : List Event} (tidy : Tidy (j ++ j')) : Tidy j' := by
  induction j with
  | nil => exact tidy
  | cons e j ih => exact ih tidy.2

theorem Tidy.of_suffix {j' : List Event} (tidy : Tidy j') (earlier : j <:+ j') : Tidy j := by
  obtain ⟨later, rfl⟩ := earlier
  exact tidy.of_append

theorem placed_of_isPlain {x : Edit} (h : (Event.edited x).IsPlain) : Placed j x := by
  cases x with
  | child | socket | top | geometry | freeStanding => exact h.elim
  | _ => trivial

theorem Tidy.plain {new : List Event} (tidy : Tidy j) (plain : ∀ e ∈ new, e.IsPlain) : Tidy (new ++ j) := by
  induction new with
  | nil => exact tidy
  | cons e new ih =>
      obtain ⟨he, hnew⟩ := List.forall_mem_cons.1 plain
      refine ⟨fun x hx => ?_, ih hnew⟩
      subst hx
      exact placed_of_isPlain he

/-! ## Assemblies after an event -/

theorem size_replayOn (a : Assembly) (e : Event) : a.size ≤ (e.replayOn a).size := by
  cases e with
  | edited x => cases x <;> simp [Event.replayOn]
  | _ => exact Nat.le_refl _

/-- Parts never go. -/
theorem size_replay_of_suffix {j j' : List Event} (earlier : j <:+ j') :
    (replay j.reverse).size ≤ (replay j'.reverse).size := by
  induction j' with
  | nil =>
      cases List.suffix_nil.1 earlier
      exact Nat.le_refl _
  | cons e j' ih =>
      rcases List.suffix_cons_iff.1 earlier with rfl | earlier
      · exact Nat.le_refl _
      · rw [replay_reverse_cons]
        exact Nat.le_trans (ih earlier) (size_replayOn _ e)

theorem Assembly.Names.extends {a a' : Assembly} {id : PartId} {name : String} (names : a.Names id name)
    (more : Extends a a') : a'.Names id name := by
  obtain ⟨k, composite, named⟩ := names
  obtain ⟨k', composite', same⟩ := more.composite composite
  exact ⟨k', composite', by rwa [same]⟩

/-- A leaf for a surface is new, or it was one before. -/
theorem wrap_replayOn {a : Assembly} {e : Event} {x : PartId} {l : Leaf}
    (fits : ∀ x, e = .edited x → Admits a x) (leaf : (e.replayOn a).leaf? x = some l) (wrap : l.role = .wrap) :
    x = a.size ∨ ∃ l₀, a.leaf? x = some l₀ ∧ l₀.role = .wrap := by
  cases e with
  | edited y =>
      have fits := fits y rfl
      cases y with
      | add q =>
          refine or_iff_not_imp_left.2 fun hx => ⟨l, ?_, wrap⟩
          rwa [leaf?_eq_some, Event.replayOn, part?_add_of_ne q hx, ← leaf?_eq_some] at leaf
      | leaf y l' =>
          obtain ⟨l₀, there, same⟩ := fits
          rw [Event.replayOn, leaf?_leaf there] at leaf
          split at leaf
          · next hx =>
            cases leaf
            refine .inr ⟨l₀, by rw [hx, there], ?_⟩
            rw [wrap] at same
            exact form_eq_wrap.1 same.symm
          · exact .inr ⟨l, leaf, wrap⟩
      | child | socket | edge =>
          refine .inr ⟨l, ?_, wrap⟩
          simpa [Event.replayOn] using leaf
      | _ => exact .inr ⟨l, leaf, wrap⟩
  | _ => exact .inr ⟨l, leaf, wrap⟩

/-- What graphs share is shared by an event, or it was before. -/
theorem shared_replayOn {a : Assembly} {e : Event} {x : PartId} (h : x ∈ (e.replayOn a).shared) :
    e.shared? = some x ∨ x ∈ a.shared := by
  cases e with
  | edited y =>
      cases y with
      | top y =>
          rcases mem_shared.1 h with top | other
          · exact .inl top
          · exact .inr (mem_shared.2 (.inr other))
      | geometry n y =>
          rcases mem_shared.1 h with top | ⟨name, known⟩ | other
          · exact .inr (mem_shared.2 (.inl top))
          · change (a.geometry.insert n y)[name]? = some x at known
            rw [Std.TreeMap.getElem?_insert] at known
            split at known
            · exact .inl known
            · exact .inr (mem_shared.2 (.inr (.inl ⟨name, known⟩)))
          · exact .inr (mem_shared.2 (.inr (.inr other)))
      | freeStanding n state =>
          rcases mem_shared.1 h with top | other | ⟨name, state', known, rfl⟩
          · exact .inr (mem_shared.2 (.inl top))
          · exact .inr (mem_shared.2 (.inr (.inl other)))
          · change (a.freeStanding.insert n state)[name]? = some state' at known
            rw [Std.TreeMap.getElem?_insert] at known
            split at known
            · cases known
              exact .inl rfl
            · exact .inr (mem_shared.2 (.inr (.inr ⟨name, state', known, rfl⟩)))
      | _ => exact .inr h
  | _ => exact .inr h

theorem mem_sharing_of_mem_shared {x : PartId} (h : x ∈ (replay j.reverse).shared) : x ∈ sharing j := by
  induction j with
  | nil => rcases mem_shared.1 h with top | ⟨_, known⟩ | ⟨_, _, known, -⟩ <;> simp [replay] at *
  | cons e j ih =>
      rw [replay_reverse_cons] at h
      rw [sharing, List.filterMap_cons]
      rcases shared_replayOn h with he | h
      · rw [he]
        exact List.mem_cons_self
      · split
        · exact ih h
        · exact List.mem_cons_of_mem _ (ih h)

theorem sockets_congr {a a' : Assembly} {id : PartId} (same : a'.composite? id = a.composite? id)
    (interface : String) : a'.sockets id interface = a.sockets id interface := by
  rw [Assembly.sockets, Assembly.sockets, same]

theorem sockets_modifyComposite {a : Assembly} {id x : PartId} {f : Composite → Composite}
    (keeps : ∀ k, (f k).sockets = k.sockets) (interface : String) :
    (a.modifyComposite x f).sockets id interface = a.sockets id interface := by
  unfold Assembly.sockets
  rw [composite?_modifyComposite]
  split
  · cases a.composite? id <;> simp [keeps]
  · rfl

theorem sockets_add (a : Assembly) (g : Graph) (id : PartId) (interface : String) :
    (a.apply (.add (.composite { graph := g }))).sockets id interface = a.sockets id interface := by
  unfold Assembly.sockets
  rw [composite?_add_composite]
  split
  · next h =>
    have absent : a.composite? id = none := by
      rw [h, composite?, part?_eq_none.2 (Nat.le_refl _)]
    simp [absent]
  · rfl

theorem mem_sockets_socket {a : Assembly} {id x : PartId} {interface i : String} {s t : Socket}
    (h : s ∈ (a.apply (.socket x i t)).sockets id interface) :
    (x = id ∧ i = interface ∧ t = s) ∨ s ∈ a.sockets id interface := by
  unfold Assembly.sockets at h ⊢
  rw [composite?_socket] at h
  split at h
  · next hx =>
    cases hk : a.composite? id with
    | none => simp [hk] at h
    | some k =>
        simp only [hk, Option.map_some, Option.getD_some, Std.TreeMap.getD_insert,
          Std.LawfulEqCmp.compare_eq_iff_eq] at h ⊢
        split at h
        · next hi =>
          subst hi
          rcases List.mem_append.1 h with h | h
          · exact .inr h
          · exact .inl ⟨hx, rfl, (List.mem_singleton.1 h).symm⟩
        · exact .inr h
  · exact .inr h

/-- A socket is opened by an event, or it was open before. -/
theorem sockets_replayOn {a : Assembly} {e : Event} {id : PartId} {interface : String} {s : Socket}
    (fits : ∀ x, e = .edited x → Admits a x) (h : s ∈ (e.replayOn a).sockets id interface) :
    e = .edited (.socket id interface s) ∨ s ∈ a.sockets id interface := by
  cases e with
  | edited x =>
      have fits := fits x rfl
      cases x with
      | add q =>
          cases q with
          | leaf l => exact .inr (sockets_congr (composite?_add_leaf l) interface ▸ h)
          | composite k =>
              obtain ⟨g, rfl⟩ := fits
              exact .inr (sockets_add a g id interface ▸ h)
      | leaf x l =>
          obtain ⟨l₀, there, -⟩ := fits
          exact .inr (sockets_congr (composite?_leaf there l) interface ▸ h)
      | child | edge =>
          rw [Event.replayOn, apply, sockets_modifyComposite] at h
          · exact .inr h
          · exact fun _ => rfl
      | socket x i t =>
          rcases mem_sockets_socket h with ⟨rfl, rfl, rfl⟩ | h
          · exact .inl rfl
          · exact .inr h
      | _ => exact .inr h
  | _ => exact .inr h

/-! ## Forests -/

namespace Assembly

def IsChild (a : Assembly) (x : PartId) : Prop := ∃ id name, a.child? id name = some x

/-- Children have larger numbers than their composites and are named after nodes of their graphs; no part is a child
twice, what is shared is no child at all, and sockets belong to children. -/
structure Forest (a : Assembly) : Prop where
  descends : Descends a
  names : ∀ {id name x}, a.child? id name = some x → a.Names id name
  once : ∀ {id id' name name' x}, a.child? id name = some x → a.child? id' name' = some x → id = id' ∧ name = name'
  shared : ∀ {x}, x ∈ a.shared → ¬ a.IsChild x
  wrap : ∀ {x l}, a.leaf? x = some l → l.role = .wrap → ¬ a.IsChild x
  socket : ∀ {id interface s}, s ∈ a.sockets id interface → (a.child? id s.child).isSome

end Assembly

/-- The child of a name after a child has been noted: the new one, or the one that was there. -/
theorem child?_of_child?_note {a : Assembly} {id i x y : PartId} {name n : String}
    (h : (a.apply (.child i n y)).child? id name = some x) :
    (i = id ∧ n = name ∧ y = x) ∨ a.child? id name = some x := by
  by_cases same : i = id ∧ n = name
  · obtain ⟨rfl, rfl⟩ := same
    cases hk : a.composite? i with
    | none => simp [child?, composite?_child, hk] at h
    | some k =>
        rw [child?_child_self hk] at h
        exact .inl ⟨rfl, rfl, Option.some.inj h⟩
  · rw [child?_child_of_ne (by tauto)] at h
    exact .inr h

/-- The child of a name after an event: one that the event notes, or the one that was there. -/
theorem child?_of_replayOn {a : Assembly} {e : Event} {id x : PartId} {name : String}
    (fits : ∀ x, e = .edited x → Admits a x) (h : (e.replayOn a).child? id name = some x) :
    e = .edited (.child id name x) ∨ a.child? id name = some x := by
  by_cases other : e.noted? = some (id, name)
  · cases e with
    | edited y =>
        cases y with
        | child i n y =>
            rcases child?_of_child?_note h with ⟨rfl, rfl, rfl⟩ | h
            · exact .inl rfl
            · exact .inr h
        | _ => cases other
    | _ => cases other
  · rw [child?_replayOn fits other] at h
    exact .inr h

/-- Only a child that has been noted is there. -/
theorem noted_of_child? {id x : PartId} {name : String} (fits : Fits j)
    (child : (replay j.reverse).child? id name = some x) : Event.edited (.child id name x) ∈ j := by
  induction j with
  | nil => simp [replay, Assembly.child?, composite?, part?] at child
  | cons e j ih =>
      rw [replay_reverse_cons] at child
      rcases child?_of_replayOn fits.1 child with rfl | child
      · exact List.mem_cons_self
      · exact List.mem_cons_of_mem _ (ih fits.2 child)

theorem mem_adopted_of_noted {id x : PartId} {name : String} (noted : Event.edited (.child id name x) ∈ j) :
    x ∈ adopted j :=
  List.mem_filterMap.2 ⟨_, noted, rfl⟩

namespace Tidy

variable {e : Event} {x : PartId}

theorem adopts (tidy : Tidy (e :: j)) (h : e.adopted? = some x) :
    x < (replay j.reverse).size ∧ x ∉ adopted j ∧ x ∉ sharing j ∧ e.shared? = none := by
  unfold Event.adopted? at h
  split at h
  · cases h
    obtain ⟨⟨-, below⟩, ⟨new, unshared⟩, -⟩ := tidy.1 _ rfl
    exact ⟨below, new, unshared, rfl⟩
  · cases h

theorem shares (tidy : Tidy (e :: j)) (h : e.shared? = some x) :
    x < (replay j.reverse).size ∧ x ∉ adopted j ∧ e.adopted? = none := by
  unfold Event.shared? at h
  split at h
  case h_4 => cases h
  all_goals
    cases h
    obtain ⟨below, unadopted⟩ := tidy.1 _ rfl
    exact ⟨below, unadopted, rfl⟩

/-- What has been noted, as a child or as shared, is there, and nothing has been noted as both. -/
theorem bounds (tidy : Tidy j) :
    (∀ x ∈ adopted j, x < (replay j.reverse).size) ∧ (∀ x ∈ sharing j, x < (replay j.reverse).size) ∧
      ∀ x ∈ sharing j, x ∉ adopted j := by
  induction j with
  | nil => exact ⟨nofun, nofun, nofun⟩
  | cons e j ih =>
      obtain ⟨below, belowShared, apart⟩ := ih tidy.2
      have later {y : PartId} (hy : y < (replay j.reverse).size) : y < (e.replayOn (replay j.reverse)).size :=
        Nat.lt_of_lt_of_le hy (size_replayOn _ e)
      rw [replay_reverse_cons, adopted, sharing]
      cases ha : e.adopted? with
      | some x =>
          obtain ⟨hx, -, unshared, hs⟩ := tidy.adopts ha
          rw [List.filterMap_cons_some ha, List.filterMap_cons_none hs]
          simp only [List.mem_cons, forall_eq_or_imp, not_or]
          refine ⟨⟨later hx, fun y hy => later (below y hy)⟩, fun y hy => later (belowShared y hy),
            fun y hy => ⟨?_, apart y hy⟩⟩
          rintro rfl
          exact unshared hy
      | none =>
          rw [List.filterMap_cons_none ha]
          refine ⟨fun y hy => later (below y hy), ?_⟩
          cases hs : e.shared? with
          | some x =>
              obtain ⟨hx, unadopted, -⟩ := tidy.shares hs
              rw [List.filterMap_cons_some hs]
              simp only [List.mem_cons, forall_eq_or_imp]
              exact ⟨⟨later hx, fun y hy => later (belowShared y hy)⟩, unadopted, apart⟩
          | none =>
              rw [List.filterMap_cons_none hs]
              exact ⟨fun y hy => later (belowShared y hy), apart⟩

theorem mem_adopted (fits : Fits j) (h : (replay j.reverse).IsChild x) : x ∈ adopted j :=
  let ⟨_, _, child⟩ := h
  mem_adopted_of_noted (noted_of_child? fits child)

/-- A leaf for a surface is not noted as a child. -/
theorem wrap_not_adopted (fits : Fits j) (tidy : Tidy j) {l : Leaf} (leaf : (replay j.reverse).leaf? x = some l)
    (wrap : l.role = .wrap) : x ∉ adopted j := by
  induction j generalizing l with
  | nil => exact List.not_mem_nil
  | cons e j ih =>
      rw [replay_reverse_cons] at leaf
      rw [adopted, List.filterMap_cons]
      have before : x ∉ adopted j := by
        rcases wrap_replayOn fits.1 leaf wrap with rfl | ⟨l₀, leaf, wrap⟩
        · exact fun h => Nat.lt_irrefl _ (tidy.2.bounds.1 _ h)
        · exact ih fits.2 tidy.2 leaf wrap
      split
      · exact before
      · next y hy =>
        rw [List.mem_cons, not_or]
        refine ⟨?_, before⟩
        rintro rfl
        unfold Event.adopted? at hy
        split at hy
        · cases hy
          obtain ⟨-, -, plain, -⟩ := tidy.1 _ rfl
          rw [Event.replayOn, leaf?_child] at leaf
          exact plain l leaf wrap
        · cases hy

section

variable {id : PartId} {name : String}

/-- A part is noted once. -/
theorem noted_once {id' : PartId} {name' : String} (tidy : Tidy j) (noted : Event.edited (.child id name x) ∈ j)
    (noted' : Event.edited (.child id' name' x) ∈ j) : id = id' ∧ name = name' := by
  induction j with
  | nil => cases noted
  | cons e j ih =>
      rcases List.mem_cons.1 noted with rfl | old <;> rcases List.mem_cons.1 noted' with same | old'
      · cases same
        exact ⟨rfl, rfl⟩
      · exact absurd (mem_adopted_of_noted old') (tidy.1 _ rfl).2.1.1
      · subst same
        exact absurd (mem_adopted_of_noted old) (tidy.1 _ rfl).2.1.1
      · exact ih tidy.2 old old'

/-- A child that is noted has been added after its composite. -/
theorem between (tidy : Tidy j) (noted : Event.edited (.child id name x) ∈ j) :
    id < x ∧ x < (replay j.reverse).size := by
  induction j with
  | nil => cases noted
  | cons e j ih =>
      rw [replay_reverse_cons]
      have between : id < x ∧ x < (replay j.reverse).size := by
        rcases List.mem_cons.1 noted with rfl | old
        · exact (tidy.1 _ rfl).1
        · exact ih tidy.2 old
      exact ⟨between.1, Nat.lt_of_lt_of_le between.2 (size_replayOn _ e)⟩

/-- A child is noted under a name of the graph. -/
theorem names_of_noted (fits : Fits j) (tidy : Tidy j) (noted : Event.edited (.child id name x) ∈ j) :
    (replay j.reverse).Names id name := by
  induction j with
  | nil => cases noted
  | cons e j ih =>
      rw [replay_reverse_cons]
      refine Assembly.Names.extends ?_ (extends_replayOn fits.1)
      rcases List.mem_cons.1 noted with rfl | old
      · exact (tidy.1 _ rfl).2.2.2
      · exact ih fits.2 tidy.2 old

end

theorem descends (fits : Fits j) (tidy : Tidy j) : Descends (replay j.reverse) :=
  fun child => tidy.between (noted_of_child? fits child)

theorem socket (fits : Fits j) (tidy : Tidy j) {id : PartId} {interface : String} {s : Socket}
    (h : s ∈ (replay j.reverse).sockets id interface) : ((replay j.reverse).child? id s.child).isSome := by
  induction j with
  | nil => simp [replay, Assembly.sockets, composite?, part?] at h
  | cons e j ih =>
      rw [replay_reverse_cons] at h ⊢
      refine (extends_replayOn fits.1).child ?_
      rcases sockets_replayOn fits.1 h with rfl | h
      · exact tidy.1 _ rfl
      · exact ih fits.2 tidy.2 h

/-- A tidy journal leads to a forest. -/
theorem forest (fits : Fits j) (tidy : Tidy j) : (replay j.reverse).Forest where
  descends := tidy.descends fits
  names child := tidy.names_of_noted fits (noted_of_child? fits child)
  once child child' := tidy.noted_once (noted_of_child? fits child) (noted_of_child? fits child')
  shared hx hc := tidy.bounds.2.2 _ (mem_sharing_of_mem_shared hx) (mem_adopted fits hc)
  wrap leaf wrap hc := wrap_not_adopted fits tidy leaf wrap (mem_adopted fits hc)
  socket := tidy.socket fits

end Tidy

end MaterialGraph
