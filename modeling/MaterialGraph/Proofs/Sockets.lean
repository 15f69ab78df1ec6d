import MaterialGraph.Proofs.Forest

/-!
# What a binding reaches

A composite passes what is bound to one of its inputs on to inputs of its children, along the sockets that have been
opened for the input.

* `Assembly.Reaches` : the inputs that a binding is passed on to, at whatever depth.
* `Wired` : every socket stands for an input of a node of the graph that names the interface input.
* `Reaches.name_eq` : two inputs of a part that reach the same input have the same name.
* `Run.wired`, `Works.wired` : sockets are opened in no other way.
-/

namespace MaterialGraph

set_option autoImplicit false

open Build Assembly Relation

variable {σ : Type} {W : Env σ} {r : Renderer σ} {c c' : Context σ} {a a' : Assembly} {x y z : PartId} {i j k : Input}

/-! ## Ways along sockets -/

namespace Assembly

/-- A composite passes what is bound to an input on to an input of a child. -/
inductive PassesOn (a : Assembly) : PartId × Input → PartId × Input → Prop
  | socket {x y : PartId} {i : Input} {k : Composite} {sockets : List Socket} {s : Socket}
      (composite : a.composite? x = some k) (opened : k.socketsFor? i = some sockets) (mem : s ∈ sockets)
      (child : k.child? s.child = some y) : PassesOn a (x, i) (y, s.input)

/-- What is bound to an input of a part is passed on, or not, until it comes to an input of another. -/
def Reaches (a : Assembly) (x : PartId) (i : Input) (y : PartId) (j : Input) : Prop :=
  ReflTransGen a.PassesOn (x, i) (y, j)

theorem PassesOn.child {p q : PartId × Input} (h : a.PassesOn p q) : ∃ name, a.child? p.1 name = some q.1 := by
  obtain ⟨composite, -, -, child⟩ := h
  exact ⟨_, (child?_of_composite? composite _).trans child⟩

theorem Reaches.below (h : a.Reaches x i y j) : Below a x y := by
  have walk {p : PartId × Input} (h : ReflTransGen a.PassesOn (x, i) p) : Below a x p.1 := by
    induction h with
    | refl => exact .refl
    | tail _ step ih =>
        obtain ⟨name, child⟩ := step.child
        exact ih.child child
  exact walk h

/-- What is reached is what was reached, as long as the composites on the way stay the same. -/
theorem Reaches.reflect (same : ∀ z, Below a x z → a'.composite? z = a.composite? z) (h : a'.Reaches x i y j) :
    a.Reaches x i y j := by
  have walk {p : PartId × Input} (h : ReflTransGen a'.PassesOn (x, i) p) : a.Reaches x i p.1 p.2 := by
    induction h with
    | refl => exact .refl
    | tail _ step ih =>
        obtain ⟨composite, opened, mem, child⟩ := step
        exact ih.tail (.socket ((same _ ih.below).symm.trans composite) opened mem child)
  exact walk h

theorem Reaches.congr (same : ∀ z, a'.composite? z = a.composite? z) (h : a.Reaches x i y j) : a'.Reaches x i y j :=
  h.reflect fun z _ => (same z).symm

/-! ## Forests -/

theorem Below.le (descends : Descends a) (h : Below a x y) : x ≤ y := by
  induction h with
  | refl => exact Nat.le_refl x
  | child _ child ih => exact Nat.le_trans ih (Nat.le_of_lt (descends child).1)

/-- Of two parts above a third, one stands above the other. -/
theorem Forest.below_or_below (forest : a.Forest) (hx : Below a x y) (hz : Below a z y) :
    Below a x z ∨ Below a z x := by
  induction hx with
  | refl => exact .inr hz
  | child above child ih =>
      cases hz with
      | refl => exact .inl (above.child child)
      | child above' child' =>
          obtain ⟨rfl, -⟩ := forest.once child child'
          exact ih above'

/-- A way that ends below a part leads through that part, unless it begins there. -/
theorem Reaches.through (forest : a.Forest) (h : a.Reaches x i y j) (above : Below a x z) (below : Below a z y) :
    x = z ∨ ∃ u i' k, a.Reaches x i u i' ∧ a.PassesOn (u, i') (z, k) ∧ a.Reaches z k y j := by
  have walk {p : PartId × Input} (h : ReflTransGen a.PassesOn (x, i) p) (below : Below a z p.1) :
      x = z ∨ ∃ u i' k, a.Reaches x i u i' ∧ a.PassesOn (u, i') (z, k) ∧ a.Reaches z k p.1 p.2 := by
    induction h with
    | refl => exact .inl (Nat.le_antisymm (above.le forest.descends) (below.le forest.descends))
    | @tail p q before step ih =>
        obtain ⟨name, child⟩ := step.child
        rcases below with _ | ⟨below, last⟩
        · exact .inr ⟨p.1, p.2, q.2, before, step, .refl⟩
        · obtain ⟨rfl, -⟩ := forest.once child last
          exact (ih below).imp_right fun ⟨u, i', k, first, passes, rest⟩ => ⟨u, i', k, first, passes, rest.tail step⟩
  exact walk h below

theorem Reaches.eq_of_self (descends : Descends a) (h : a.Reaches x i x j) : i = j := by
  rcases ReflTransGen.cases_tail h with same | ⟨p, before, step⟩
  · exact (Prod.mk.inj same).2.symm
  · obtain ⟨name, child⟩ := step.child
    have up : x ≤ p.1 := (Reaches.below before).le descends
    exact absurd up (Nat.not_le.2 (descends child).1)

end Assembly

/-! ## Sockets -/

def Input.IsPlain (i : Input) : Prop := i.interfaceName? = none

/-- Every definition that a node instantiates declares inputs of different names that name no interface inputs. -/
def Catalog.IsClear (C : Catalog) : Prop :=
  ∀ n nd, C.nodeDefOf? n = some nd → (nd.inputs.map Input.name).Nodup ∧ ∀ i ∈ nd.inputs, i.IsPlain

instance Input.IsPlain.decide (i : Input) : Decidable i.IsPlain := inferInstanceAs (Decidable (_ = none))

/-- It is so if all definitions declare such inputs. -/
theorem Catalog.isClear_of_nodeDefs {C : Catalog} (all : ∀ d ∈ C.documents, ∀ nd ∈ d.nodeDefs,
    (nd.inputs.map Input.name).Nodup ∧ ∀ i ∈ nd.inputs, i.IsPlain) : C.IsClear := by
  intro n nd definition
  unfold Catalog.nodeDefOf? at definition
  split at definition
  · obtain ⟨d, hd, found⟩ := List.exists_of_findSome?_eq_some definition
    exact all d hd nd (List.mem_of_find?_eq_some found)
  · obtain ⟨d, hd, found⟩ := List.exists_of_findSome?_eq_some definition
    exact all d hd nd (List.mem_of_find?_eq_some found)

/-- A socket for an interface input belongs to a declared input of a node of the graph, and the node's element for it
names the interface input. -/
structure Wired (C : Catalog) (a : Assembly) : Prop where
  socket {id : PartId} {interface : String} {s : Socket} (mem : s ∈ a.sockets id interface) :
    ∃ g n nd element, HasGraph a id g ∧ g.Has n ∧ s.child = n.name ∧ C.nodeDefOf? n = some nd ∧ s.input ∈ nd.inputs ∧
      n.input? s.input.name = some element ∧ element.interfaceName? = some interface

namespace Wired

variable {C : Catalog}

theorem start : Wired C {} :=
  ⟨fun hs => by simp [Assembly.sockets, composite?, part?] at hs⟩

/-- If no socket is opened, all are as they should be. -/
theorem extend (wired : Wired C a) (more : Extends a a')
    (same : ∀ id interface s, s ∈ a'.sockets id interface → s ∈ a.sockets id interface) : Wired C a' := by
  refine ⟨fun hs => ?_⟩
  obtain ⟨g, n, nd, element, graph, rest⟩ := wired.socket (same _ _ _ hs)
  exact ⟨g, n, nd, element, graph.extends more, rest⟩

theorem congr (wired : Wired C a) (more : Extends a a') (same : ∀ id, a'.composite? id = a.composite? id) :
    Wired C a' :=
  wired.extend more fun id interface _ hs => sockets_congr (same id) interface ▸ hs

theorem modifyComposite {f : Composite → Composite} (wired : Wired C a) (more : Extends a (a.modifyComposite x f))
    (keeps : ∀ k, (f k).sockets = k.sockets) : Wired C (a.modifyComposite x f) :=
  wired.extend more fun _ interface _ hs => sockets_modifyComposite keeps interface ▸ hs

theorem addLeaf (wired : Wired C a) (l : Leaf) : Wired C (a.apply (.add (.leaf l))) :=
  wired.congr (.add _ _) fun _ => composite?_add_leaf l

theorem addComposite (wired : Wired C a) (g : Graph) : Wired C (a.apply (.add (.composite { graph := g }))) :=
  wired.extend (.add _ _) fun id interface _ hs => sockets_add a g id interface ▸ hs

theorem child (wired : Wired C a) (id : PartId) (name : String) (x : PartId) : Wired C (a.apply (.child id name x)) :=
  wired.modifyComposite (.note _ (.child _ _ _)) fun _ => rfl

theorem edge (wired : Wired C a) (id : PartId) (e : Edge) : Wired C (a.apply (.edge id e)) :=
  wired.modifyComposite (.note _ (.edge _ _)) fun _ => rfl

theorem freeStanding (wired : Wired C a) (name : String) (state : Construction) :
    Wired C (a.apply (.freeStanding name state)) :=
  wired.congr (.share (.freeStanding _ _)) fun _ => rfl

theorem rebinds {S : PartId → Prop} (wired : Wired C a) (h : Rebinds S a a') : Wired C a' :=
  wired.congr (.of_rebinds h) h.composite

/-- The sockets of a plain input are those of its name, so the element of the node that the input belongs to names
it. -/
theorem passesOn (wired : Wired C a) (plain : i.IsPlain) (h : a.PassesOn (x, i) (y, j)) :
    ∃ g n nd element, HasGraph a x g ∧ g.Has n ∧ a.child? x n.name = some y ∧ C.nodeDefOf? n = some nd ∧
      j ∈ nd.inputs ∧ n.input? j.name = some element ∧ element.interfaceName? = some i.name := by
  obtain @⟨_, _, _, k, sockets, s, composite, opened, mem, child⟩ := h
  rw [Composite.socketsFor?, plain] at opened
  have mem : s ∈ a.sockets x i.name := by
    rw [Assembly.sockets, composite, Option.map_some, Option.getD_some, Std.TreeMap.getD_eq_getD_getElem?]
    rw [show k.sockets[i.name]? = some sockets from opened]
    exact mem
  obtain ⟨g, n, nd, element, graph, node, name, definition, declared, named, refers⟩ := wired.socket mem
  refine ⟨g, n, nd, element, graph, node, ?_, definition, declared, named, refers⟩
  rw [child?_of_composite? composite, ← name]
  exact child

end Wired

/-- What plain inputs reach is declared, and so plain again. -/
theorem Assembly.Reaches.plain {C : Catalog} (clear : C.IsClear) (wired : Wired C a) (plain : i.IsPlain)
    (h : a.Reaches x i y j) : j.IsPlain := by
  have walk {p : PartId × Input} (h : ReflTransGen a.PassesOn (x, i) p) : p.2.IsPlain := by
    induction h with
    | refl => exact plain
    | tail _ step ih =>
        obtain ⟨g, n, nd, element, -, -, -, definition, declared, -⟩ := wired.passesOn ih step
        exact (clear n nd definition).2 _ declared
  exact walk h

/-- An input of a child belongs to one interface input of its composite at most. -/
theorem Wired.unique {C : Catalog} (wired : Wired C a) (forest : a.Forest) (hi : i.IsPlain) (hk : k.IsPlain)
    {j j' : Input} (h : a.PassesOn (x, i) (y, j)) (h' : a.PassesOn (z, k) (y, j')) (same : j.name = j'.name) :
    x = z ∧ i.name = k.name := by
  obtain ⟨g, n, nd, element, graph, node, child, -, -, named, refers⟩ := wired.passesOn hi h
  obtain ⟨g', n', nd', element', graph', node', child', -, -, named', refers'⟩ := wired.passesOn hk h'
  obtain ⟨rfl, name⟩ := forest.once child child'
  obtain rfl := graph.unique graph'
  obtain rfl := node.unique node' name
  rw [same, named'] at named
  cases named
  exact ⟨rfl, Option.some.inj (refers.symm.trans refers')⟩

/-- Inputs of a part that reach inputs of one name and one part have one name. -/
theorem Assembly.Reaches.name_eq {C : Catalog} (clear : C.IsClear) (wired : Wired C a) (forest : a.Forest)
    (hi : i.IsPlain) (hk : k.IsPlain) {j j' : Input} (h : a.Reaches x i y j) (h' : a.Reaches x k y j')
    (same : j.name = j'.name) : i.name = k.name := by
  have walk {p : PartId × Input} (h : ReflTransGen a.PassesOn (x, i) p) :
      ∀ j', a.Reaches x k p.1 j' → p.2.name = j'.name → i.name = k.name := by
    induction h with
    | refl =>
        intro j' h' same
        rwa [h'.eq_of_self forest.descends]
    | @tail p q before step ih =>
        intro j' h' same
        rcases ReflTransGen.cases_tail h' with back | ⟨u, before', step'⟩
        · -- the first way leads down from the part, so it does not end there
          obtain ⟨name, child⟩ := step.child
          have up : x ≤ p.1 := (Reaches.below before).le forest.descends
          rw [(Prod.mk.inj back).1] at child
          exact absurd up (Nat.not_le.2 (forest.descends child).1)
        · obtain ⟨part, name⟩ := wired.unique forest (Reaches.plain clear wired hi before)
            (Reaches.plain clear wired hk before') step step' same
          refine ih u.2 ?_ name
          rw [part]
          exact before'
  exact walk h j' h' same

/-! ## Runs -/

namespace Build

theorem Barren.wired {C : Catalog} (h : Barren r c c') (wired : Wired C c.assembly) : Wired C c'.assembly := by
  induction h with
  | refl | message => exact wired
  | trans _ _ ih₁ ih₂ => exact ih₂ (ih₁ wired)
  | task _ ih => exact ih wired
  | failed _ creation =>
      rw [creation.assembly]
      exact wired
  | composite _ g => exact wired.addComposite g

theorem Starts.wired {C : Catalog} {g : NodeGraph} (h : Starts g c x c') (wired : Wired C c.assembly) :
    Wired C c'.assembly := by
  cases h with
  | first => exact (wired.addComposite _).freeStanding _ _
  | again => exact wired.freeStanding _ _

/-- A run opens sockets for inputs that name interface inputs. -/
theorem Run.wired {ph : Phase} {id : PartId} {s : Nat} (h : Run W ph id s c c') (wired : Wired W.catalog c.assembly) :
    Wired W.catalog c'.assembly := by
  induction h with
  | refl | message => exact wired
  | trans _ _ ih₁ ih₂ => exact ih₂ (ih₁ wired)
  | barren barren => exact barren.wired wired
  | task _ _ ih => exact ih wired
  | leafChild _ _ _ makes =>
      rw [Context.edit_assembly, Context.edit_assembly, makes.assembly]
      exact (wired.addLeaf _).child _ _ _
  | compositeChild _ _ _ _ _ _ ih => exact (ih (wired.addComposite _)).child _ _ _
  | @socket id s c g n nd i element interface graph node there definition declared named refers =>
      refine ⟨fun {id' interface' t} ht => ?_⟩
      have more : Extends c.assembly (c.edit (.socket id interface ⟨n.name, i⟩)).assembly := .note _ (.socket _ _ _)
      rcases mem_sockets_socket ht with ⟨rfl, rfl, rfl⟩ | ht
      · exact ⟨g, n, nd, element, graph.extends more, node, rfl, definition, declared, named, refers⟩
      · obtain ⟨g', n', nd', element', graph', rest⟩ := wired.socket ht
        exact ⟨g', n', nd', element', graph'.extends more, rest⟩
  | literal _ binds => exact wired.rebinds binds.rebinds
  | inside _ _ _ _ connects => exact (wired.rebinds connects.rebinds).edge _ _
  | insideFailed _ _ _ _ connects => exact wired.rebinds connects.rebinds
  | geometry absent creation =>
      rw [Context.edit_assembly, Context.edit_assembly, creation.assembly]
      exact (wired.addLeaf _).congr (.share (.geometry absent)) fun _ => rfl
  | @top _ _ _ c absent =>
      have still : (c.assembly.apply (.add (.composite { graph := .document W.catalog.document }))).top = none := absent
      exact (wired.addComposite _).congr (.share (.top still)) fun _ => rfl
  | viaTop _ _ _ ih => exact ih wired
  | viaGraph starts _ ih => exact (ih (starts.wired wired)).freeStanding _ _
  | outside _ _ connects => exact wired.rebinds connects.rebinds

theorem Works.wired {harvest harvest' : Harvest} (h : Works W harvest c harvest' c')
    (wired : Wired W.catalog c.assembly) : Wired W.catalog c'.assembly := by
  induction h with
  | refl | more | root => exact wired
  | trans _ _ ih₁ ih₂ => exact ih₂ (ih₁ wired)
  | mark _ _ mark => cases mark <;> exact wired
  | inside _ _ run => exact run.wired wired
  | elsewhere _ run => exact (run .asking 0 0).wired wired
  | own _ inner => exact inner.wired (wired.addComposite _)
  | wrap _ _ creation =>
      rw [Context.edit_assembly, creation.assembly]
      exact wired.addLeaf _
  | wrapFailed _ _ creation =>
      rw [creation.assembly]
      exact wired

end Build

end MaterialGraph
