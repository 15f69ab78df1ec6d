import MaterialGraph.Proofs.Ending
import MaterialGraph.Proofs.Frame
import MaterialGraph.Proofs.Handover

/-!
# What is collected in the end

The parts below which a load collects its nodes overlap: the composites of groups can be shared, and a shared composite
can be a child of none. Each part is visited once all the same.

* `Visits` : a search through all that stands below some parts, each part before its children.
* `visits_reachable` : the walk, which keeps what is still to be visited on a stack, makes this search.
* `Collects` : a list gives what the parts of an order have.
* `handOver_collects` : what is handed over, in which order, and what is deleted.
-/

namespace MaterialGraph

set_option autoImplicit false

open Build Assembly

namespace Assembly

variable {a : Assembly} {seen stack starts order : List PartId} {fuel : Nat} {x y z : PartId}

/-! ## The search -/

/-- A search past the parts seen visits some parts in an order: each start, then what its children lead to, then what
the other starts lead to. -/
inductive Visits (a : Assembly) : List PartId → List PartId → List PartId → Prop
  | done (seen : List PartId) : Visits a seen [] []
  | old {x : PartId} {seen starts order : List PartId} (old : x ∈ seen) (others : Visits a seen starts order) :
      Visits a seen (x :: starts) order
  | new {x : PartId} {seen starts below order : List PartId} (new : x ∉ seen)
      (down : Visits a (x :: seen) (a.children x) below)
      (others : Visits a (below.reverse ++ x :: seen) starts order) :
      Visits a seen (x :: starts) (x :: (below ++ order))

/-- A walk whose fuel lasts searches what lies on top of its stack, and then goes on with the rest. -/
theorem exists_visits (fuel : Nat) {seen starts stack : List PartId}
    (lasts : (starts ++ stack).length + a.unseenChildren seen ≤ fuel) :
    ∃ order fuel', fuel' ≤ fuel ∧ Visits a seen starts order ∧
      a.walk fuel seen (starts ++ stack) = order ++ a.walk fuel' (order.reverse ++ seen) stack ∧
      stack.length + a.unseenChildren (order.reverse ++ seen) ≤ fuel' := by
  induction fuel using Nat.strongRecOn generalizing seen starts stack with
  | ind fuel ih =>
      cases starts with
      | nil => exact ⟨[], fuel, Nat.le_refl _, .done seen, rfl, lasts⟩
      | cons x starts =>
          obtain ⟨fuel, rfl⟩ : ∃ f, fuel = f + 1 := by
            rw [List.cons_append, List.length_cons] at lasts
            exact ⟨fuel - 1, by omega⟩
          rw [List.cons_append, List.length_cons] at lasts
          rw [List.cons_append, walk]
          split
          · next old =>
            have lasts' : (starts ++ stack).length + a.unseenChildren seen ≤ fuel := by omega
            obtain ⟨order, left, fewer, visits, same, enough⟩ := ih fuel (Nat.lt_succ_self _) lasts'
            exact ⟨order, left, by omega, .old (by simpa using old) visits, same, enough⟩
          · next new =>
            have unseen : x ∉ seen := by simpa using new
            rw [unseenChildren_cons unseen] at lasts
            have lasts' : (a.children x ++ (starts ++ stack)).length + a.unseenChildren (x :: seen) ≤ fuel := by
              rw [List.length_append]
              omega
            obtain ⟨below, left, fewer, down, same, enough⟩ := ih fuel (Nat.lt_succ_self _) lasts'
            -- the stack is the other starts on top of the old one, so the second search begins where this one ends
            obtain ⟨order, left', fewer', others, same', enough'⟩ := ih left (by omega) enough
            have all : (x :: (below ++ order)).reverse ++ seen =
                order.reverse ++ (below.reverse ++ x :: seen) := by simp
            refine ⟨x :: (below ++ order), left', by omega, .new unseen down others, ?_, ?_⟩
            · rw [same, same', all, List.cons_append, List.append_assoc]
            · rw [all]
              exact enough'

/-- The parts at and below some parts are listed in the order of the search. -/
theorem visits_reachable (a : Assembly) (starts : List PartId) : Visits a [] starts (a.reachable starts) := by
  have lasts : (starts ++ []).length + a.unseenChildren [] ≤ a.walkLength starts :=
    Nat.le_of_eq (by rw [walkLength_eq, List.append_nil])
  obtain ⟨order, left, -, visits, same, -⟩ := exists_visits _ lasts
  have nothing : a.walk left (order.reverse ++ []) [] = [] := by cases left <;> rfl
  rw [List.append_nil, nothing, List.append_nil] at same
  rw [reachable, same]
  exact visits

theorem Below.head {name : String} (child : a.child? x name = some y) (below : Below a y z) : Below a x z := by
  induction below with
  | refl => exact .child .refl child
  | child _ last ih => exact .child ih last

/-- A search visits nothing but what stands at or below a start. -/
theorem Visits.below_of_mem (visits : Visits a seen starts order) (hx : x ∈ order) : ∃ y ∈ starts, Below a y x := by
  induction visits with
  | done => exact absurd hx List.not_mem_nil
  | old _ _ ih =>
      obtain ⟨y, hy, below⟩ := ih hx
      exact ⟨y, List.mem_cons_of_mem _ hy, below⟩
  | @new start _ _ _ _ _ _ _ ihDown ihOthers =>
      rcases List.mem_cons.1 hx with rfl | hx
      · exact ⟨x, List.mem_cons_self, .refl⟩
      · rcases List.mem_append.1 hx with hx | hx
        · obtain ⟨y, hy, below⟩ := ihDown hx
          obtain ⟨name, child⟩ := mem_children.1 hy
          exact ⟨start, List.mem_cons_self, below.head child⟩
        · obtain ⟨y, hy, below⟩ := ihOthers hx
          exact ⟨y, List.mem_cons_of_mem _ hy, below⟩

theorem mem_reachable_iff : x ∈ a.reachable starts ↔ ∃ y ∈ starts, Below a y x :=
  ⟨(visits_reachable a starts).below_of_mem, fun ⟨_, hy, below⟩ => mem_reachable hy below⟩

end Assembly

/-! ## What parts have -/

/-- A list gives what the parts of an order have: one item for each part that has any, in this order. -/
def Collects {β : Type} (order : List PartId) (has : PartId → β → Prop) (items : List β) : Prop :=
  ∃ parts, parts.Sublist order ∧ (∀ x ∈ order, x ∈ parts ↔ ∃ b, has x b) ∧ List.Forall₂ has parts items

theorem forall₂_filterMap {α β : Type} {f : α → Option β} {has : α → β → Prop} (h : ∀ x b, f x = some b → has x b)
    (xs : List α) : List.Forall₂ has (xs.filter fun x => (f x).isSome) (xs.filterMap f) := by
  induction xs with
  | nil => exact .nil
  | cons x xs ih =>
      cases hx : f x with
      | none =>
          rw [List.filterMap_cons_none hx, List.filter_cons_of_neg (by simp [hx])]
          exact ih
      | some b =>
          rw [List.filterMap_cons_some hx, List.filter_cons_of_pos (by simp [hx])]
          exact .cons (h x b hx) ih

theorem collects_filterMap {β : Type} {f : PartId → Option β} {has : PartId → β → Prop}
    (h : ∀ x b, f x = some b ↔ has x b) (order : List PartId) : Collects order has (order.filterMap f) := by
  refine ⟨order.filter fun x => (f x).isSome, List.filter_sublist, fun x hx => ?_,
    forall₂_filterMap (fun x b => (h x b).1) order⟩
  rw [List.mem_filter, Option.isSome_iff_exists]
  exact ⟨fun ⟨_, b, hb⟩ => ⟨b, (h x b).1 hb⟩, fun ⟨b, hb⟩ => ⟨hx, b, (h x b).2 hb⟩⟩

def Owns (a : Assembly) (x : PartId) (h : Handle) : Prop := ∃ role, a.leaf? x = some ⟨.owned h, role⟩

/-- A part is a leaf that owns the node of an image and has been told its file. -/
def Pictures (a : Assembly) (x : PartId) (image : ImageNode) : Prop :=
  a.leaf? x = some ⟨.owned image.node, .image image.params⟩ ∧ image.params.file ≠ ""

theorem ownedNode?_eq_some {a : Assembly} {x : PartId} {h : Handle} :
    LoadResult.ownedNode? a x = some h ↔ Owns a x h := by
  rw [LoadResult.ownedNode?, Owns]
  cases a.leaf? x with
  | none => simp
  | some l =>
      obtain ⟨hold, role⟩ := l
      cases hold <;> simp [Hold.owned?]

/-- An image leaf owns its node, so an image is handed over for it whenever it has a file. -/
theorem imageNode?_eq_some {a : Assembly} (equipped : Equipped a) {x : PartId} {image : ImageNode} :
    LoadResult.imageNode? a x = some image ↔ Pictures a x image := by
  rw [LoadResult.imageNode?, Pictures]
  cases leaf : a.leaf? x with
  | none => simp
  | some l =>
      obtain ⟨hold, role⟩ := l
      cases role with
      | image params =>
          obtain ⟨h, rfl⟩ := equipped x _ leaf rfl
          obtain ⟨told, node⟩ := image
          by_cases file : params.file = ""
          · simp [file]
            rintro - rfl
            exact file
          · simp [file, Hold.handle?]
            constructor
            · rintro ⟨rfl, rfl⟩
              exact ⟨⟨rfl, rfl⟩, file⟩
            · rintro ⟨⟨rfl, rfl⟩, -⟩
              exact ⟨rfl, rfl⟩
      | plain | mapped | wrap | surface | displacement => simp

/-! ## Handing over -/

/-- What is handed over of an assembly, and what of it is lost: all that stands at or below the parts to be handed over
and the parts that graphs share is visited once, in order, and what is not visited gives up its nodes. -/
structure HandsOver (a : Assembly) (parts order : List PartId) (result : LoadResult) (lost : List Handle) : Prop where
  visits : a.Visits [] (parts ++ a.shared) order
  once : order.Nodup
  reached : ∀ x, x ∈ order ↔ Reached a parts x
  nodes : Collects order (Owns a) result.nodes
  images : Collects order (Pictures a) result.images
  pictured : ∀ x ∈ order, ∀ hold params, a.leaf? x = some ⟨hold, .image params⟩ → params.file ≠ "" →
    ∃ h, Pictures a x ⟨params, h⟩
  backed : ∀ image ∈ result.images, image.node ∈ result.nodes
  lost : Collects ((List.range a.size).filter (· ∉ order)) (Owns a) lost

theorem handsOver_ofAssembly {a : Assembly} (equipped : Equipped a) (parts : List PartId)
    (roots : PerKind (Option PartId)) :
    HandsOver a parts (a.reachable (parts ++ a.shared)) (.ofAssembly a parts roots)
      ((LoadResult.left a parts).filterMap (LoadResult.ownedNode? a)) where
  visits := a.visits_reachable _
  once := a.nodup_reachable _
  reached _ := mem_reachable_iff
  nodes := collects_filterMap (fun _ _ => ownedNode?_eq_some) _
  images := collects_filterMap (fun _ _ => imageNode?_eq_some equipped) _
  pictured x _ hold params leaf file := by
    obtain ⟨h, rfl⟩ := equipped x _ leaf rfl
    exact ⟨h, leaf, file⟩
  backed image mem := by
    obtain ⟨x, hx, shown⟩ := List.mem_filterMap.1 mem
    have pictures := (imageNode?_eq_some equipped).1 shown
    exact List.mem_filterMap.2 ⟨x, hx, ownedNode?_eq_some.2 ⟨_, pictures.1⟩⟩
  lost := by
    have rest : LoadResult.left a parts =
        (List.range a.size).filter (· ∉ a.reachable (parts ++ a.shared)) := by
      simp [LoadResult.left]
    rw [rest]
    exact collects_filterMap (fun _ _ => ownedNode?_eq_some) _

namespace Build

variable {σ : Type} {W : Env σ} {p : Place} {r : Renderer σ} {c : Context σ}

theorem deleted_released {x : PartId} {l : Leaf} (leaf : c.assembly.leaf? x = some l) :
    deleted (released r x l c).journal = (LoadResult.ownedNode? c.assembly x).toList ++ deleted c.journal := by
  rw [ownedNode?_of_leaf? leaf, released]
  cases l.hold.owned? <;> rfl

/-- The nodes of some parts are deleted one after the other. -/
theorem deleted_releasedAll {xs : List PartId} (nodup : xs.Nodup) (c : Context σ) :
    deleted (releasedAll r xs c).journal =
      (xs.filterMap (LoadResult.ownedNode? c.assembly)).reverse ++ deleted c.journal := by
  induction xs generalizing c with
  | nil => rfl
  | cons x xs ih =>
      obtain ⟨fresh, nodup⟩ := List.nodup_cons.1 nodup
      rw [releasedAll]
      cases leaf : c.assembly.leaf? x with
      | none =>
          have nothing : LoadResult.ownedNode? c.assembly x = none := by
            rw [LoadResult.ownedNode?, leaf]
            rfl
          dsimp only
          rw [ih nodup, List.filterMap_cons_none nothing]
      | some l =>
          have others : xs.filterMap (LoadResult.ownedNode? (released r x l c).assembly) =
              xs.filterMap (LoadResult.ownedNode? c.assembly) := by
            refine List.filterMap_congr fun y hy => ownedNode?_congr ?_
            rw [released_assembly, leaf?_leaf leaf, if_neg]
            rintro rfl
            exact fresh hy
          dsimp only
          rw [ih nodup, others, deleted_released leaf]
          cases own : LoadResult.ownedNode? c.assembly x with
          | none => rw [List.filterMap_cons_none own]; rfl
          | some h => rw [List.filterMap_cons_some own, List.reverse_cons, List.append_assoc]; rfl

theorem nodup_left (a : Assembly) (parts : List PartId) : (LoadResult.left a parts).Nodup :=
  List.nodup_range.filter _

/-- If the renderer creates no handle twice, none is handed over twice. -/
theorem Steps.nodup_nodes {s : σ} (steps : Steps r { system := s } c) (fresh : r.Fresh s) (parts : List PartId)
    (roots : PerKind (Option PartId)) : (LoadResult.ofAssembly c.assembly parts roots).nodes.Nodup := by
  have account := (steps.accounted (accounted_start s)).releasedAll (r := r) (LoadResult.left c.assembly parts)
  have kept := LoadResult.perm_nodes c.assembly parts roots
  rw [← owned_releasedAll (r := r)] at kept
  have moves := steps.moves.trans (moves_releasedAll (LoadResult.left c.assembly parts) c)
  have once := account.balance.nodup_iff.2 (fresh _ _ (Moves.history moves .start))
  rw [List.nil_append] at once
  exact kept.nodup_iff.1 (List.nodup_append.1 once).1

/-- Whatever groups have been built, handing over visits what stands at or below the parts that are to be handed over or
are shared, each part once and before its children. It lists the nodes that the leaves among them own, and the images
with a file, in this order, and deletes the nodes of all other leaves. -/
theorem handOver_collects (W : Env σ) (p : Place) (gs : List Group) (s : σ) (harvest : Harvest) (c : Context σ)
    (built : gs.foldlM buildGroup {} (W.at p) { system := s } = .ok (harvest, c)) :
    ∃ result c' order lost, handOver harvest (W.at p) c = .ok (result, c') ∧
      HandsOver c.assembly harvest.parts order result lost ∧ (W.renderer.Fresh s → result.nodes.Nodup) ∧
      deleted c'.journal = lost.reverse ++ deleted c.journal := by
  have steps := (after_buildGroups gs {} _ _ built).steps
  have equipped := steps.equipped .start
  have total : Total (handOver harvest : Build σ LoadResult) :=
    total_assembly.bind fun _ => (total_releaseParts _).bind fun _ => (total_emit _).bind fun _ => total_pure _
  obtain ⟨result, c', handed⟩ := (total (W.at p) c).exists_eq
  have ends : After (handOver harvest) (W.at p) c fun result c' =>
      result = .ofAssembly c.assembly harvest.parts harvest.roots ∧
        deleted c'.journal = deleted (releasedAll W.renderer (LoadResult.left c.assembly harvest.parts) c).journal := by
    rw [handOver, after_bind, after_assembly]
    dsimp only
    rw [after_bind, after_releaseParts, after_bind, after_emit, after_pure]
    exact ⟨rfl, rfl⟩
  obtain ⟨rfl, gone⟩ := ends _ _ handed
  refine ⟨_, c', _, _, handed, handsOver_ofAssembly equipped _ _, fun fresh => steps.nodup_nodes fresh _ _, ?_⟩
  rw [gone, deleted_releasedAll (nodup_left _ _)]

/-- A sum takes the value of an image, which looks up texture coordinates, and a value from `loop`, which leads back to
the sum: `x` is built twice, and the parts of the inner `x` are left behind. -/
def picturedTwice : Document where
  nodeDefs := [
    { name := "ND_add", node := "add", type := "float"
      inputs := [{ name := "in1", type := "float" }, { name := "in2", type := "float" }] },
    { name := "ND_image", node := "image", type := "float"
      inputs := [{ name := "file", type := "filename" },
        { name := "texcoord", type := "vector2", defaultGeomProp := some "UV0" }] },
    { name := "ND_thing", node := "thing", type := "float", nodeGraph := some "NG_thing" }]
  geomPropDefs := [{ name := "UV0", geomProp := "texcoord", type := "vector2" }]
  nodeGraphs := [
    { name := "NG_thing", nodeDef := some "ND_thing"
      nodes := [
        { name := "a", category := "add", type := "float"
          inputs := [{ name := "in1", type := "float", nodeGraph := some "loop", output := some "back" },
            { name := "in2", type := "float", nodeName := some "i" }] },
        { name := "i", category := "image", type := "float"
          inputs := [{ name := "file", type := "filename", value := some "t.png" }] }]
      outputs := [{ name := "out", type := "float", nodeName := some "a" }] },
    { name := "loop"
      nodes := [
        { name := "k", category := "add", type := "float"
          inputs := [{ name := "in1", type := "float", output := some "o" }] }]
      outputs := [{ name := "back", type := "integer", nodeName := some "k" }] }]
  nodes := [{ name := "x", category := "thing", type := "float" }]
  outputs := [{ name := "o", type := "float", nodeName := some "x" }]

/-- Two sums, an image, the texture coordinates and a pass-through are handed over; the inner sum and the inner image
are not. -/
theorem handOver_collects_picturedTwice :
    let W : Env Recorder :=
      { renderer := Recorder.renderer, catalog := ⟨picturedTwice, none⟩, searchPath := ⟨["d"]⟩
        fileExists := fun _ => true }
    let gs := Group.ofSelected (Selection.choose W.catalog none).selected
    ∃ harvest c result c' order lost, gs.foldlM buildGroup {} (W.at {}) { system := {} } = .ok (harvest, c) ∧
      handOver harvest (W.at {}) c = .ok (result, c') ∧ HandsOver c.assembly harvest.parts order result lost ∧
      result.nodes = [⟨0⟩, ⟨5⟩, ⟨6⟩, ⟨4⟩, ⟨1⟩] ∧ result.images = [⟨{ file := "d/t.png" }, ⟨5⟩⟩] ∧
      deleted c'.journal = lost.reverse ++ deleted c.journal ∧ deleted c'.journal = [⟨3⟩, ⟨2⟩] := by
  intro W gs
  have evaluated : ((gs.foldlM buildGroup {} >>= handOver : Build Recorder LoadResult) (W.at {})
      { system := {} }).toOption.map (fun handed => (handed.1.nodes, handed.1.images, deleted handed.2.journal)) =
      some ([⟨0⟩, ⟨5⟩, ⟨6⟩, ⟨4⟩, ⟨1⟩], [⟨{ file := "d/t.png" }, ⟨5⟩⟩], [⟨3⟩, ⟨2⟩]) := by decide +kernel
  obtain ⟨result, c', handed, same⟩ := exists_of_toOption evaluated
  obtain ⟨harvest, c, built, handed⟩ := bind_eq_ok.1 handed
  obtain ⟨nodes, same⟩ := Prod.mk.inj same
  obtain ⟨images, gone⟩ := Prod.mk.inj same
  obtain ⟨_, _, order, lost, handed', collects, -, deleted⟩ := handOver_collects W {} gs {} harvest c built
  cases handed.symm.trans handed'
  exact ⟨harvest, c, result, c', order, lost, built, handed, collects, nodes, images, deleted, gone⟩

end Build

end MaterialGraph
