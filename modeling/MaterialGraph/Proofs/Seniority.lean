import MaterialGraph.Proofs.Frame

/-!
# Leaves that are older than a run

A run sets inputs only in parts from a number on, and all parts that it adds are newer still. So it leaves all older
leaves as they are, children or not.

* `Retains` : some leaves stay as they are, and so do the nodes that they own.
* `Run.retains` : a run leaves older leaves alone.
* `retains_releasedAll` : so does the deletion of nodes with all others.
-/

namespace MaterialGraph.Build

set_option autoImplicit false

open Assembly

variable {s : Recorder} {c c₁ c' : Context Recorder} {S T : PartId → Prop} {x z : PartId} {m : Nat}

/-- The leaves of some parts stay as they are, and so do the nodes that they own. -/
structure Retains (S : PartId → Prop) (c c' : Context Recorder) : Prop where
  leaf : ∀ {x}, S x → c'.assembly.leaf? x = c.assembly.leaf? x
  node : ∀ {x l h}, S x → c.assembly.leaf? x = some l → l.hold.owned? = some h → c'.system.node? h = c.system.node? h

namespace Retains

theorem refl (S : PartId → Prop) (c : Context Recorder) : Retains S c c := ⟨fun _ => rfl, fun _ _ _ => rfl⟩

theorem trans (h₁ : Retains S c c₁) (h₂ : Retains S c₁ c') : Retains S c c' where
  leaf hx := (h₂.leaf hx).trans (h₁.leaf hx)
  node hx there own := (h₂.node hx ((h₁.leaf hx).trans there) own).trans (h₁.node hx there own)

theorem mono (h : Retains S c c') (sub : ∀ x, T x → S x) : Retains T c c' :=
  ⟨fun hx => h.leaf (sub _ hx), fun hx => h.node (sub _ hx)⟩

theorem push (S : PartId → Prop) (c : Context Recorder) (e : Event) : Retains S c (c.push e) :=
  ⟨fun _ => rfl, fun _ _ _ => rfl⟩

theorem edit {e : Edit} (leaf : ∀ x, S x → (c.assembly.apply e).leaf? x = c.assembly.leaf? x) :
    Retains S c (c.edit e) :=
  ⟨leaf _, fun _ _ _ => rfl⟩

/-- A part is added after all those that are retained. -/
theorem add (there : m ≤ c.assembly.size) (q : Part) : Retains (· < m) c (c.edit (.add q)) := by
  refine edit fun x hx => ?_
  rw [leaf?, leaf?, part?_add_of_ne q (Nat.ne_of_lt (Nat.lt_of_lt_of_le hx there))]

theorem creates {type : NodeType} {role : Role} {settings : List (InputKey × Bound)} {name : Option String}
    {res : Result Leaf} (keeps : Keeps s c)
    (creation : CreatesLeaf Recorder.renderer type role settings name c res c') : Retains S c c' where
  leaf _ := by rw [creation.assembly]
  node _ there own := creation.node?_eq (keeps.now.numbered there own)

/-- Leaves are bound below a part that has none of those below it that are retained. -/
theorem binds {b : Binding} (keeps : Keeps s c) (binds : Binds Recorder.renderer z b c c')
    (apart : ∀ x, S x → ¬ Below c.assembly z x) : Retains S c c' := by
  induction binds with
  | refl => exact .refl S c
  | remark _ margin text ih => exact ih.trans (.push S _ _)
  | @leaf c₁ c₂ u l res before below leaf bindsLeaf ih =>
      have elsewhere {x : PartId} (hx : S x) : x ≠ u := by
        rintro rfl
        exact apart x hx (before.rebinds.below.1 below)
      refine ih.trans ⟨fun hx => (bindsLeaf.rebinds leaf).other _ (elsewhere hx), fun hx there own => ?_⟩
      exact bindsLeaf.node?_eq (before.keeps keeps) leaf there own (elsewhere hx)

theorem connects {u : PartId} {success : Bool} (keeps : Keeps s c)
    (connects : Connects Recorder.renderer u z success c c') (apart : ∀ x, S x → ¬ Below c.assembly z x) :
    Retains S c c' := by
  obtain @⟨c₁, output, i, passes⟩ := connects
  have begun : Retains S c (c.edit (.began (.connection u output z i))) := edit fun _ _ => rfl
  have bound : Retains S (c.edit (.began (.connection u output z i))) c₁ := by
    cases passes with
    | nothing => exact .refl S _
    | handle _ _ bindsAll => exact binds (keeps.mark (.began _)) bindsAll apart
  exact (begun.trans bound).trans (edit fun _ _ => rfl)

end Retains

/-- What stands below a part is not older. -/
theorem not_below_of_lt {a : Assembly} (forest : a.Forest) (from' : m ≤ z) (x : PartId) (hx : x < m) : ¬ Below a z x :=
  fun below => Nat.not_lt.2 (Nat.le_trans from' (below.le forest.descends)) hx

/-! ## Runs -/

theorem Barren.retains (barren : Barren Recorder.renderer c c') (keeps : Keeps s c) (there : m ≤ c.assembly.size) :
    Retains (· < m) c c' := by
  induction barren with
  | refl => exact .refl _ _
  | trans first _ ih₁ ih₂ =>
      exact (ih₁ keeps there).trans (ih₂ (first.keeps keeps) (Nat.le_trans there first.steps.extends.size))
  | message => exact .push _ _ _
  | task _ ih =>
      exact (Retains.edit fun _ _ => rfl).trans ((ih (keeps.mark (.began _)) there).trans (.edit fun _ _ => rfl))
  | failed _ creation => exact .creates keeps creation
  | composite => exact .add there _

theorem MakesLeaf.retains {n : Node} {l : Leaf} (makes : MakesLeaf Recorder.renderer n c l c') (keeps : Keeps s c)
    (there : m ≤ c.assembly.size) : Retains (· < m) c (c'.edit (.add (.leaf l))) := by
  have later : m ≤ c'.assembly.size := makes.assembly ▸ there
  refine Retains.trans ?_ (.add later _)
  cases makes with
  | forward => exact .refl _ _
  | create _ creation => exact .creates keeps creation

theorem Starts.retains {g : NodeGraph} (starts : Starts g c x c') (there : m ≤ c.assembly.size) :
    Retains (· < m) c c' := by
  cases starts with
  | first => exact (Retains.add there _).trans (.edit fun _ _ => rfl)
  | again => exact .edit fun _ _ => rfl

/-- A run leaves all leaves alone that are older than itself and than the parts in which it sets inputs. -/
theorem Run.retains {W : Env Recorder} (recording : W.renderer = Recorder.renderer) {ph : Phase} {id : PartId} {n : Nat}
    (run : Run W ph id n c c') (proper : Proper s W.catalog c) (from' : m ≤ n) (there : m ≤ c.assembly.size) :
    Retains (· < m) c c' := by
  induction run with
  | refl => exact .refl _ _
  | trans first _ ih₁ ih₂ =>
      exact (ih₁ proper from' there).trans
        (ih₂ (proper.run recording first) from' (Nat.le_trans there first.steps.extends.size))
  | message => exact .push _ _ _
  | barren barren => exact (recording ▸ barren).retains proper.keeps there
  | task _ _ ih =>
      exact (Retains.edit fun _ _ => rfl).trans ((ih (proper.mark (.began _)) there there).trans (.edit fun _ _ => rfl))
  | leafChild _ _ _ makes =>
      exact ((recording ▸ makes).retains proper.keeps there).trans (.edit fun _ _ => leaf?_child _ _)
  | compositeChild _ _ _ _ _ _ ih =>
      have inner := ih (proper.composite _) there (Nat.le_trans there (Extends.add _ _).size)
      exact ((Retains.add there _).trans inner).trans (.edit fun _ _ => leaf?_child _ _)
  | socket => exact .edit fun _ _ => leaf?_socket _ _
  | literal takes binds =>
      exact .binds proper.keeps (recording ▸ binds) (not_below_of_lt proper.orderly.forest (Nat.le_trans from' takes.2))
  | inside _ _ consumer _ connects =>
      have connected := Retains.connects proper.keeps (recording ▸ connects)
        (not_below_of_lt proper.orderly.forest (Nat.le_trans from' consumer.2))
      exact connected.trans (.edit fun _ _ => leaf?_edge _)
  | insideFailed _ _ consumer _ connects =>
      exact .connects proper.keeps (recording ▸ connects)
        (not_below_of_lt proper.orderly.forest (Nat.le_trans from' consumer.2))
  | geometry _ creation =>
      have made := Retains.creates (S := (· < m)) proper.keeps (recording ▸ creation)
      exact (made.trans (.add (creation.assembly ▸ there) _)).trans (.edit fun _ _ => rfl)
  | top => exact (Retains.add there _).trans (.edit fun _ _ => rfl)
  | viaTop _ _ _ ih =>
      exact (Retains.edit fun _ _ => rfl).trans ((ih (proper.mark (.began _)) there there).trans (.edit fun _ _ => rfl))
  | viaGraph starts _ ih =>
      have inner := ih (proper.starts starts) there (Nat.le_trans there starts.size_le)
      exact ((starts.retains there).trans inner).trans (.edit fun _ _ => rfl)
  | outside _ takes connects =>
      exact .connects proper.keeps (recording ▸ connects)
        (not_below_of_lt proper.orderly.forest (Nat.le_trans from' takes.2))

/-! ## Deletion -/

theorem retains_released {l : Leaf} (keeps : Keeps s c) (leaf : c.assembly.leaf? z = some l) :
    Retains (· ≠ z) c (released Recorder.renderer z l c) where
  leaf hx := (rebinds_released leaf).other _ hx
  node hx there own := (node?_released keeps leaf there own hx).1

/-- Leaves that are not among those whose nodes are deleted stay as they are. -/
theorem retains_releasedAll (xs : List PartId) (keeps : Keeps s c) :
    Retains (· ∉ xs) c (releasedAll Recorder.renderer xs c) := by
  induction xs generalizing c with
  | nil => exact .refl _ _
  | cons z xs ih =>
      rw [releasedAll]
      cases leaf : c.assembly.leaf? z with
      | none => exact (ih keeps).mono fun x hx => List.not_mem_of_not_mem_cons hx
      | some l =>
          have first := (retains_released keeps leaf).mono (T := (· ∉ z :: xs)) fun x hx => List.ne_of_not_mem_cons hx
          exact first.trans ((ih (keeps_released keeps leaf)).mono fun x hx => List.not_mem_of_not_mem_cons hx)

end MaterialGraph.Build
