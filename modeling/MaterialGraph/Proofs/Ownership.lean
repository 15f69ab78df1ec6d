import Mathlib.Data.List.Basic
import MaterialGraph.Proofs.Build.Groups
import MaterialGraph.Proofs.Journal

/-!
# Who owns a node

Every handle that has been created is owned by one leaf or has been deleted once. `Accounted` keeps the account; the
spare handles are those on their way from the renderer to a leaf, or from a leaf to their deletion.

* `Step.accounted` : one step keeps the account.
* `handles_partition_load` : at the end of a load each created handle is handed over or has been deleted.
-/

namespace MaterialGraph.Build

set_option autoImplicit false

open Assembly Relation

variable {σ : Type} {r : Renderer σ} {c c' : Context σ}

/-! ## The owned handles of an assembly -/

/-- The handles that the leaves of an assembly own. -/
def owned (a : Assembly) : List Handle := (List.range a.size).filterMap (LoadResult.ownedNode? a)

theorem ownedNode?_congr {a a' : Assembly} {x : PartId} (h : a'.leaf? x = a.leaf? x) :
    LoadResult.ownedNode? a' x = LoadResult.ownedNode? a x := by
  rw [LoadResult.ownedNode?, LoadResult.ownedNode?, h]

theorem ownedNode?_of_leaf? {a : Assembly} {x : PartId} {l : Leaf} (h : a.leaf? x = some l) :
    LoadResult.ownedNode? a x = l.hold.owned? := by
  rw [LoadResult.ownedNode?, h]
  rfl

theorem owned_congr {a a' : Assembly} (size : a'.size = a.size) (leaf : ∀ x, a'.leaf? x = a.leaf? x) :
    owned a' = owned a := by
  rw [owned, owned, size]
  exact List.filterMap_congr fun x _ => ownedNode?_congr (leaf x)

theorem owned_add_leaf (a : Assembly) (l : Leaf) :
    owned (a.apply (.add (.leaf l))) = owned a ++ l.hold.owned?.toList := by
  rw [owned, size_add, List.range_succ, List.filterMap_append, owned]
  congr 1
  · refine List.filterMap_congr fun x hx => ownedNode?_congr ?_
    rw [leaf?_add_leaf, if_neg (Nat.ne_of_lt (List.mem_range.1 hx))]
  · have here : (a.apply (.add (.leaf l))).leaf? a.size = some l := by
      rw [leaf?_add_leaf, if_pos rfl]
    cases held : l.hold.owned? with
    | none => rw [List.filterMap_cons_none ((ownedNode?_of_leaf? here).trans held)]; rfl
    | some h => rw [List.filterMap_cons_some ((ownedNode?_of_leaf? here).trans held)]; rfl

theorem owned_add_composite (a : Assembly) (k : Composite) :
    owned (a.apply (.add (.composite k))) = owned a := by
  rw [owned, size_add, List.range_succ, List.filterMap_append, owned]
  have beyond : (a.apply (.add (.composite k))).leaf? a.size = none := by
    rw [leaf?_add_composite, leaf?, part?_eq_none.2 (Nat.le_refl _)]
  have nothing : LoadResult.ownedNode? (a.apply (.add (.composite k))) a.size = none := by
    rw [LoadResult.ownedNode?, beyond]
    rfl
  rw [List.filterMap_cons_none nothing, List.filterMap_nil, List.append_nil]
  exact List.filterMap_congr fun x _ => ownedNode?_congr (leaf?_add_composite k)

def ownedByOthers (a : Assembly) (x : PartId) : List Handle :=
  ((List.range a.size).erase x).filterMap (LoadResult.ownedNode? a)

theorem owned_perm {a : Assembly} {x : PartId} {l : Leaf} (h : a.leaf? x = some l) :
    (owned a).Perm (l.hold.owned?.toList ++ ownedByOthers a x) := by
  have hx : x ∈ List.range a.size := List.mem_range.2 (lt_size_of_leaf? h)
  refine ((List.perm_cons_erase hx).filterMap _).trans ?_
  rw [ownedByOthers]
  cases held : l.hold.owned? with
  | none => rw [List.filterMap_cons_none ((ownedNode?_of_leaf? h).trans held)]; rfl
  | some g => rw [List.filterMap_cons_some ((ownedNode?_of_leaf? h).trans held)]; rfl

theorem ownedByOthers_leaf {a : Assembly} {x : PartId} {l : Leaf} (h : a.leaf? x = some l) (l' : Leaf) :
    ownedByOthers (a.apply (.leaf x l')) x = ownedByOthers a x := by
  rw [ownedByOthers, ownedByOthers, size_leaf]
  refine List.filterMap_congr fun y hy => ownedNode?_congr ?_
  rw [leaf?_leaf h, if_neg ((List.nodup_range.mem_erase_iff.1 hy).1)]

/-! ## The account -/

/-- Each created handle is spare, or owned by one leaf, or has been deleted once; and only created handles are held or
have been named. -/
structure Accounted (spare : List Handle) (c : Context σ) : Prop where
  balance : (spare ++ (owned c.assembly ++ deleted c.journal)).Perm (created c.journal)
  held : ∀ {x h}, Holds c.assembly x h → h ∈ created c.journal
  order : Scoped c.journal
  living : Living c.journal
  native : ∀ {x l}, c.assembly.leaf? x = some l → Forwards l.role = false → l.hold.handle? = l.hold.owned?
  surface : ∀ {x l}, c.assembly.leaf? x = some l → l.role = .surface → l.hold.owned? = none

theorem Accounted.spare_mem {spare : List Handle} (acc : Accounted spare c) {h : Handle} (hh : h ∈ spare) :
    h ∈ created c.journal :=
  acc.balance.subset (List.mem_append_left _ hh)

/-- A spare handle has not been deleted. -/
theorem Accounted.spare_living {spare : List Handle} {h : Handle} (acc : Accounted (h :: spare) c) :
    ∃ rest, (h :: (rest ++ deleted c.journal)).Perm (created c.journal) := by
  refine ⟨spare ++ owned c.assembly, ?_⟩
  rw [List.append_assoc]
  exact acc.balance

/-- A handle that a leaf owns has not been deleted. -/
theorem Accounted.owned_living {spare : List Handle} {x : PartId} {l : Leaf} {h : Handle} (acc : Accounted spare c)
    (leaf : c.assembly.leaf? x = some l) (own : l.hold.owned? = some h) :
    ∃ rest, (h :: (rest ++ deleted c.journal)).Perm (created c.journal) := by
  have mine := owned_perm leaf
  rw [own] at mine
  refine ⟨spare ++ ownedByOthers c.assembly x, List.Perm.trans ?_ acc.balance⟩
  rw [← List.append_assoc spare, ← List.cons_append]
  exact (List.perm_middle.symm.trans (mine.append_left spare).symm).append_right _

theorem Holds.congr {a a' : Assembly} {x : PartId} {h : Handle} (leaf : a'.leaf? x = a.leaf? x) :
    Holds a' x h ↔ Holds a x h := by
  rw [Holds, Holds, leaf]

theorem created_subset {c₁ : Context σ} (h : Moves r c c₁) {g : Handle} (hg : g ∈ created c.journal) :
    g ∈ created c₁.journal :=
  (h.suffix.sublist.filterMap _).subset hg

/-- An event that is no call changes nothing if no leaf changes. -/
theorem Accounted.quiet {spare : List Handle} {a' : Assembly} {e : Event} (acc : Accounted spare c)
    (size : a'.size = c.assembly.size) (leaf : ∀ x, a'.leaf? x = c.assembly.leaf? x)
    (made : e.created? = none) (gone : e.deleted? = none) (named : e.names = []) (aimed : e.target? = none) :
    Accounted spare { c with assembly := a', journal := e :: c.journal } := by
  have hc : created (e :: c.journal) = created c.journal := List.filterMap_cons_none made
  have hd : deleted (e :: c.journal) = deleted c.journal := List.filterMap_cons_none gone
  constructor
  · change (spare ++ (owned a' ++ deleted (e :: c.journal))).Perm (created (e :: c.journal))
    rw [owned_congr size leaf, hc, hd]
    exact acc.balance
  · intro x h holds
    change h ∈ created (e :: c.journal)
    rw [hc]
    exact acc.held ((Holds.congr (leaf x)).1 holds)
  · refine ⟨?_, acc.order⟩
    rw [named]
    exact fun h hh => absurd hh List.not_mem_nil
  · refine ⟨?_, acc.living⟩
    rw [aimed]
    exact nofun
  · intro x l hl
    exact acc.native ((leaf x).symm.trans hl)
  · intro x l hl
    exact acc.surface ((leaf x).symm.trans hl)

theorem Accounted.push {spare : List Handle} {e : Event} (acc : Accounted spare c) (message : IsMessage e) :
    Accounted spare (c.push e) := by
  cases message <;> exact acc.quiet rfl (fun _ => rfl) rfl rfl rfl rfl

/-- An edit that changes no leaf changes nothing. -/
theorem Accounted.edit {spare : List Handle} {e : Edit} (acc : Accounted spare c)
    (size : (c.assembly.apply e).size = c.assembly.size)
    (leaf : ∀ x, (c.assembly.apply e).leaf? x = c.assembly.leaf? x) : Accounted spare (c.edit e) :=
  acc.quiet size leaf rfl rfl rfl rfl

/-- What a leaf gives up becomes spare, and what it takes is spare no more. -/
theorem Accounted.setLeaf {spare spare' : List Handle} {x : PartId} {l l' : Leaf} (acc : Accounted spare c)
    (leaf : c.assembly.leaf? x = some l)
    (moved : (spare' ++ l'.hold.owned?.toList).Perm (spare ++ l.hold.owned?.toList))
    (held : ∀ h, l'.hold.handle? = some h → h ∈ created c.journal)
    (native : Forwards l'.role = false → l'.hold.handle? = l'.hold.owned?)
    (surface : l'.role = .surface → l'.hold.owned? = none) : Accounted spare' (c.edit (.leaf x l')) := by
  have here : (c.assembly.apply (.leaf x l')).leaf? x = some l' := by
    rw [leaf?_leaf leaf, if_pos rfl]
  constructor
  · change (spare' ++ (owned (c.assembly.apply (.leaf x l')) ++ deleted c.journal)).Perm (created c.journal)
    have before := owned_perm leaf
    have after := owned_perm here
    rw [ownedByOthers_leaf leaf] at after
    refine List.Perm.trans ?_ acc.balance
    rw [← List.append_assoc, ← List.append_assoc]
    refine List.Perm.append_right _ ?_
    refine (after.append_left spare').trans (List.Perm.trans ?_ (before.append_left spare).symm)
    rw [← List.append_assoc, ← List.append_assoc]
    exact moved.append_right _
  · intro y h holds
    change h ∈ created c.journal
    by_cases hy : y = x
    · rw [hy, Holds, Context.edit_assembly, here] at holds
      exact held h holds
    · refine acc.held ((Holds.congr ?_).1 holds)
      rw [Context.edit_assembly, leaf?_leaf leaf, if_neg hy]
  · exact ⟨fun h hh => absurd hh List.not_mem_nil, acc.order⟩
  · exact ⟨by rintro _ ⟨⟩, acc.living⟩
  · intro y k hk
    by_cases hy : y = x
    · rw [hy, Context.edit_assembly, here] at hk
      cases hk
      exact native
    · rw [Context.edit_assembly, leaf?_leaf leaf, if_neg hy] at hk
      exact acc.native hk
  · intro y k hk
    by_cases hy : y = x
    · rw [hy, Context.edit_assembly, here] at hk
      cases hk
      exact surface
    · rw [Context.edit_assembly, leaf?_leaf leaf, if_neg hy] at hk
      exact acc.surface hk

/-! ## Calls -/

/-- A binding or a name changes no ownership. -/
theorem Accounted.acted {spare : List Handle} {a : Action} (acc : Accounted spare c)
    (named : ∀ h ∈ Event.ofAction a, h ∈ created c.journal) (kept : ∀ h, a ≠ .delete h)
    (living : ∀ h ∈ (Event.acted a (r.act a c.system).1).target?,
      ∃ rest, (h :: (rest ++ deleted c.journal)).Perm (created c.journal)) :
    Accounted spare (c.acted r a) := by
  have hd : deleted (c.acted r a).journal = deleted c.journal := by
    refine List.filterMap_cons_none ?_
    cases a with
    | delete h => exact absurd rfl (kept h)
    | bind | rename => rfl
  constructor
  · rw [hd]
    exact acc.balance
  · exact acc.held
  · exact ⟨named, acc.order⟩
  · exact ⟨living, acc.living⟩
  · exact acc.native
  · exact acc.surface

/-- A spare handle can be deleted. -/
theorem Accounted.delete {spare : List Handle} {h : Handle} (acc : Accounted (h :: spare) c) :
    Accounted spare (c.acted r (.delete h)) := by
  constructor
  · change (spare ++ (owned c.assembly ++ h :: deleted c.journal)).Perm (created c.journal)
    refine List.Perm.trans ?_ acc.balance
    rw [← List.append_assoc, ← List.append_assoc]
    exact List.perm_middle
  · exact acc.held
  · refine ⟨fun g hg => ?_, acc.order⟩
    rw [List.mem_singleton.1 hg]
    exact acc.spare_mem List.mem_cons_self
  · refine ⟨?_, acc.living⟩
    rintro _ ⟨⟩
    exact acc.spare_living
  · exact acc.native
  · exact acc.surface

/-- A created handle is spare. -/
theorem Accounted.create {type : NodeType} {h : Handle} (acc : Accounted [] c)
    (reply : (r.create type c.system).1 = .ok h) : Accounted [h] (c.created r type) := by
  have hc : created (c.created r type).journal = h :: created c.journal := by
    rw [Context.created_journal, reply]
    rfl
  have hd : deleted (c.created r type).journal = deleted c.journal := rfl
  constructor
  · rw [hc, hd]
    exact acc.balance.cons h
  · intro x g holds
    rw [hc]
    exact List.mem_cons_of_mem _ (acc.held holds)
  · exact ⟨fun g hg => absurd hg List.not_mem_nil, acc.order⟩
  · exact ⟨nofun, acc.living⟩
  · exact acc.native
  · exact acc.surface

theorem Accounted.refuse {type : NodeType} {e : CallError} (acc : Accounted [] c)
    (reply : (r.create type c.system).1 = .error e) : Accounted [] (c.created r type) := by
  have hc : created (c.created r type).journal = created c.journal := by
    rw [Context.created_journal, reply]
    rfl
  have hd : deleted (c.created r type).journal = deleted c.journal := rfl
  constructor
  · rw [hc, hd]
    exact acc.balance
  · intro x g holds
    rw [hc]
    exact acc.held holds
  · exact ⟨fun g hg => absurd hg List.not_mem_nil, acc.order⟩
  · exact ⟨nofun, acc.living⟩
  · exact acc.native
  · exact acc.surface

/-- Settings name the new node and nodes that are held. -/
theorem Accounted.acts {h : Handle} {settings : List (InputKey × Bound)} (acc : Accounted [h] c)
    (known : ∀ key g, (key, Bound.node g) ∈ settings → g ∈ created c.journal)
    (acts : Acts r (IsSetting h settings) c c') : Accounted [h] c' := by
  induction acts with
  | refl => exact acc
  | act before ha ih =>
      have own := ih.spare_mem List.mem_cons_self
      have living := ih.spare_living
      cases ha with
      | rename name =>
          refine ih.acted (fun g hg => ?_) nofun ?_
          · rw [List.mem_singleton.1 hg]
            exact own
          · rintro _ ⟨⟩
            exact living
      | @bind key value mem =>
          refine ih.acted (fun g hg => ?_) nofun (by rintro _ ⟨⟩; exact living)
          cases value with
          | node g' =>
              rcases List.mem_cons.1 hg with rfl | hg
              · exact own
              · rw [List.mem_singleton.1 hg]
                exact created_subset before.moves (known key g' mem)
          | floats | word =>
              rw [List.mem_singleton.1 hg]
              exact own

theorem Accounted.createsLeaf {type : NodeType} {role : Role} {settings : List (InputKey × Bound)}
    {name : Option String} {res : Result Leaf}
    (acc : Accounted [] c) (known : ∀ key g, (key, Bound.node g) ∈ settings → g ∈ created c.journal)
    (creation : CreatesLeaf r type role settings name c res c') :
    Accounted (match res with
      | .ok l => l.hold.owned?.toList
      | .error _ => []) c' := by
  have known' : ∀ key g, (key, Bound.node g) ∈ settings → g ∈ created (c.created r type).journal :=
    fun key g mem => created_subset (ReflTransGen.single (.create type)) (known key g mem)
  cases creation with
  | refused reply => exact acc.refuse reply
  | done reply setup => exact (acc.create reply).acts known' setup.settings
  | undone reply setup => exact ((acc.create reply).acts known' setup.settings).delete

/-! ## Leaves -/

theorem Accounted.addLeaf {l : Leaf} (acc : Accounted l.hold.owned?.toList c)
    (owning : l.hold.handle? = l.hold.owned?)
    (surface : l.role = .surface → l.hold.owned? = none) : Accounted [] (c.edit (.add (.leaf l))) := by
  constructor
  · rw [Context.edit_assembly, owned_add_leaf, List.nil_append]
    refine List.Perm.trans ?_ acc.balance
    rw [← List.append_assoc]
    exact List.perm_append_comm.append_right _
  · intro x h holds
    rw [Holds, Context.edit_assembly, leaf?_add_leaf] at holds
    by_cases hx : x = c.assembly.size
    · rw [if_pos hx] at holds
      refine acc.spare_mem ?_
      have own : l.hold.owned? = some h := owning ▸ holds
      rw [own]
      exact List.mem_singleton_self h
    · rw [if_neg hx] at holds
      exact acc.held holds
  · exact ⟨fun h hh => absurd hh List.not_mem_nil, acc.order⟩
  · exact ⟨by rintro _ ⟨⟩, acc.living⟩
  · intro x k hk
    rw [Context.edit_assembly, leaf?_add_leaf] at hk
    by_cases hx : x = c.assembly.size
    · rw [if_pos hx] at hk
      cases hk
      exact fun _ => owning
    · rw [if_neg hx] at hk
      exact acc.native hk
  · intro x k hk
    rw [Context.edit_assembly, leaf?_add_leaf] at hk
    by_cases hx : x = c.assembly.size
    · rw [if_pos hx] at hk
      cases hk
      exact surface
    · rw [if_neg hx] at hk
      exact acc.surface hk

theorem Accounted.released {x : PartId} {l : Leaf} (acc : Accounted [] c) (leaf : c.assembly.leaf? x = some l) :
    Accounted [] (released r x l c) := by
  have emptied : Accounted l.hold.owned?.toList (c.edit (.leaf x { l with hold := .nothing })) := by
    refine acc.setLeaf leaf ?_ nofun (fun _ => rfl) fun _ => rfl
    rw [List.nil_append]
    exact (List.append_nil _).symm ▸ List.Perm.refl _
  rw [Build.released]
  cases held : l.hold.owned? with
  | none =>
      rw [held] at emptied
      exact emptied
  | some h =>
      rw [held] at emptied
      exact emptied.delete

/-- A binding keeps the account, whatever it binds and however it ends. -/
theorem Accounted.bindsLeaf {x : PartId} {l : Leaf} {b : Binding} {res : Result Unit} (acc : Accounted [] c)
    (leaf : c.assembly.leaf? x = some l) (known : ∀ h, b = .node h → h ∈ created c.journal)
    (binds : BindsLeaf r x l b c res c') : Accounted [] c' := by
  have gone : Accounted [] (Build.released r x l c) := acc.released leaf
  have empty := leaf?_released (r := r) leaf
  have known' : ∀ h, b = .node h → h ∈ created (Build.released r x l c).journal :=
    fun h hb => created_subset (moves_released leaf) (known h hb)
  have fixed : ∀ {v : Number.Float4}, ∀ key g, (key, Bound.node g) ∈ [(InputKey.value, Bound.floats v)] →
      g ∈ created (Build.released r x l c).journal := by
    intro v key g mem
    simp at mem
  cases binds with
  | unchanged => exact acc
  | called key res mem held asked =>
      refine acc.acted (fun g hg => ?_) (by rintro _ ⟨⟩) ?_
      rotate_left
      · rintro _ ⟨⟩
        exact acc.owned_living leaf ((acc.native leaf (native_of_mem_inputKeys mem)).symm.trans held)
      have own := acc.held (x := x) (by rw [Holds, leaf]; exact held)
      cases asked with
      | node h =>
          rcases List.mem_cons.1 hg with rfl | hg
          · exact own
          · rw [List.mem_singleton.1 hg]
            exact known h rfl
      | literal =>
          rw [List.mem_singleton.1 hg]
          exact own
  | params p' role =>
      refine acc.setLeaf leaf (List.Perm.refl _) (fun h hh => ?_) (fun _ => ?_) (by rintro ⟨⟩)
      · exact acc.held (x := x) (by rw [Holds, leaf]; exact hh)
      · have native : Forwards l.role = false := by
          rw [role]
          rfl
        have whole : l.hold.handle? = l.hold.owned? := acc.native leaf native
        exact whole
  | @forwarded h role node =>
      refine acc.setLeaf leaf ?_ (fun g hg => ?_) (fun native => ?_) fun _ => rfl
      rotate_right
      · rw [role] at native
        cases native
      · rw [acc.surface leaf role]
        rfl
      · cases hg
        exact known h node
  | @redirected h name role node =>
      refine gone.setLeaf empty (List.Perm.refl _) (fun g hg => ?_) (fun native => ?_) fun _ => rfl
      · cases hg
        exact known' h node
      · rw [role] at native
        cases native
  | emptied => exact gone
  | lost role literal creation => exact gone.createsLeaf fixed creation
  | @replaced constant name value type v c₁ role literal creation =>
      have made := gone.createsLeaf fixed creation
      have there : c₁.assembly.leaf? x = some { l with hold := .nothing } := by
        rw [creation.assembly]
        exact empty
      refine made.setLeaf there ?_ (fun g hg => made.spare_mem ?_) (fun native => ?_) fun hrole => ?_
      · exact (List.append_nil _).symm ▸ List.Perm.refl _
      · cases creation
        cases hg
        exact List.mem_singleton_self _
      · rw [role] at native
        cases native
      · rw [role] at hrole
        cases hrole

theorem Accounted.binds {x : PartId} {b : Binding} (acc : Accounted [] c)
    (known : ∀ h, b = .node h → h ∈ created c.journal) (binds : Binds r x b c c') : Accounted [] c' := by
  induction binds with
  | refl => exact acc
  | remark _ margin text ih => exact ih.push (.remark margin text)
  | leaf before _ leaf binds ih =>
      exact ih.bindsLeaf leaf (fun h hb => created_subset before.moves (known h hb)) binds

/-! ## Steps and runs -/

/-- Every step keeps the account. -/
theorem Step.accounted (h : Step r c c') (acc : Accounted [] c) : Accounted [] c' := by
  cases h with
  | message message => exact acc.push message
  | mark mark => cases mark <;> exact acc.edit rfl fun _ => rfl
  | note note =>
      cases note with
      | child => exact acc.edit (size_child _ _) fun _ => leaf?_child _ _
      | socket => exact acc.edit (size_socket _ _) fun _ => leaf?_socket _ _
      | edge => exact acc.edit (size_edge _) fun _ => leaf?_edge _
  | share shares => cases shares <;> exact acc.edit rfl fun _ => rfl
  | composite g =>
      constructor
      · rw [Context.edit_assembly, owned_add_composite]
        exact acc.balance
      · intro x h holds
        exact acc.held ((Holds.congr (leaf?_add_composite _)).1 holds)
      · exact ⟨fun h hh => absurd hh List.not_mem_nil, acc.order⟩
      · exact ⟨nofun, acc.living⟩
      · intro x l hl
        rw [Context.edit_assembly, leaf?_add_composite] at hl
        exact acc.native hl
      · intro x l hl
        rw [Context.edit_assembly, leaf?_add_composite] at hl
        exact acc.surface hl
  | forward role => exact Accounted.addLeaf acc rfl fun _ => rfl
  | refused held creation =>
      refine acc.createsLeaf (fun key h mem => ?_) creation
      obtain ⟨x, holds⟩ := held key h mem
      exact acc.held holds
  | create native held creation =>
      have known : ∀ key h, (key, Bound.node h) ∈ _ → h ∈ created c.journal := fun key h mem =>
        let ⟨_, holds⟩ := held key h mem
        acc.held holds
      have made := acc.createsLeaf known creation
      cases creation
      refine made.addLeaf rfl ?_
      rintro rfl
      cases native
  | literal binds => exact acc.binds (fun h hb => Binding.noConfusion hb) binds
  | passes passes =>
      cases passes with
      | nothing => exact acc
      | handle _ holds binds =>
          refine acc.binds (fun h hb => ?_) binds
          cases hb
          exact acc.held holds

theorem Steps.accounted (h : Steps r c c') (acc : Accounted [] c) : Accounted [] c' := by
  induction h with
  | refl => exact acc
  | tail _ step ih => exact step.accounted ih

/-! ## The end of a load -/

theorem ownedNode?_releasedAll (xs : List PartId) (c : Context σ) (x : PartId) :
    LoadResult.ownedNode? (releasedAll r xs c).assembly x =
      if x ∈ xs then none else LoadResult.ownedNode? c.assembly x := by
  induction xs generalizing c with
  | nil => rfl
  | cons y ys ih =>
      rw [releasedAll]
      cases leaf : c.assembly.leaf? y with
      | some l =>
          dsimp only
          rw [ih, LoadResult.ownedNode?, released_assembly, leaf?_leaf leaf]
          by_cases hx : x = y
          · rw [if_pos hx, hx, if_pos List.mem_cons_self]
            exact ite_self _
          · rw [if_neg hx]
            have : x ∈ y :: ys ↔ x ∈ ys := by simp [hx]
            simp only [this]
            rfl
      | none =>
          dsimp only
          rw [ih]
          by_cases hx : x = y
          · have nothing : LoadResult.ownedNode? c.assembly x = none := by
              rw [LoadResult.ownedNode?, hx, leaf]
              rfl
            rw [hx, if_pos List.mem_cons_self, ← hx, nothing]
            exact ite_self _
          · have : x ∈ y :: ys ↔ x ∈ ys := by simp [hx]
            simp only [this]

end MaterialGraph.Build
