import MaterialGraph.Build.Resolver
import MaterialGraph.Proofs.Build.Edits
import MaterialGraph.Proofs.Build.Leaf

/-!
# Runs

What a build can do to a context, without the functions that do it.

* `Binds`, `Connects` : a binding goes down to leaves; a connection binds what a leaf holds.
* `Barren` : what is left of a construction that fails.
* `Run` : what happens in a composite. While it is `asking`, children are asked of it; while it is `giving`, a child
  is being built and connected. A run opens other runs: for the graph of a definition, for a free-standing graph, and
  for the top level.

A journal is `Calm` if no composite is asked for a child while it is giving one. Otherwise a child may be built twice,
and the second part takes the place of the first.
-/

namespace MaterialGraph

set_option autoImplicit false

variable {σ : Type}

/-! ## Composites that are giving a child -/

namespace Event

/-- The composites that are giving a child after an event. -/
def track (e : Event) (giving : List PartId) : List PartId :=
  match e with
  | edited (.began (.child id _)) => id :: giving
  | edited (.ended (.child _ _) _) => giving.tail
  | _ => giving

/-- Whether an event concerns no child of a composite: none is noted, asked for or given. -/
def IsRoutine : Event → Prop
  | edited (.child _ _ _) => False
  | edited (.began (.child _ _)) => False
  | edited (.ended (.child _ _) _) => False
  | _ => True

/-- Whether an event is a call, or another state of a leaf. -/
def IsHandiwork : Event → Prop
  | edited (.leaf _ _) => True
  | created _ _ => True
  | acted _ _ => True
  | _ => False

/-- Whether an event is a call, a remark, or another state of a leaf. -/
def IsSilent : Event → Prop
  | edited (.leaf _ _) => True
  | edited _ => False
  | warned _ => False
  | _ => True

/-- Whether an event is a call, a message, another state of a leaf, or a mark of a connection. -/
def IsLeafwork : Event → Prop
  | edited (.leaf _ _) => True
  | edited (.began (.connection _ _ _ _)) => True
  | edited (.ended (.connection _ _ _ _) _) => True
  | edited _ => False
  | _ => True

def asked? : Event → Option PartId
  | edited (.began (.child id _)) => some id
  | _ => none

end Event

/-- The composites that are giving a child at the end of a journal, which lists the latest event first. -/
def underway (j : List Event) : List PartId := j.foldr Event.track []

/-- No composite has been asked for a child while it was giving one. -/
def Calm : List Event → Prop
  | [] => True
  | e :: j => (∀ id ∈ e.asked?, id ∉ underway j) ∧ Calm j

instance Calm.decide : (j : List Event) → Decidable (Calm j)
  | [] => .isTrue trivial
  | e :: j =>
    have := Calm.decide j
    inferInstanceAs (Decidable ((∀ id ∈ e.asked?, id ∉ underway j) ∧ Calm j))

@[simp] theorem underway_cons (e : Event) (j : List Event) : underway (e :: j) = e.track (underway j) := rfl

theorem Calm.of_suffix {j j' : List Event} (h : Calm j') (hj : j <:+ j') : Calm j := by
  induction j' with
  | nil =>
      rw [List.suffix_nil.1 hj]
      exact h
  | cons e j' ih =>
      rcases List.suffix_cons_iff.1 hj with rfl | hj
      · exact h
      · exact ih h.2 hj

/-- A graph has a node: it is the first of its name. -/
def Graph.Has (g : Graph) (n : Node) : Prop := g.node? n.name = some n

theorem mem_of_node? {g : Graph} {name : String} {n : Node} (h : g.node? name = some n) :
    g.Has n ∧ n.name = name := by
  have same := List.find?_some h
  rw [decide_eq_true_eq] at same
  subst same
  exact ⟨h, rfl⟩

theorem Graph.Has.mem {g : Graph} {n : Node} (h : g.Has n) : n ∈ g.nodes := List.mem_of_find?_eq_some h

/-- A graph has one node of a name. -/
theorem Graph.Has.unique {g : Graph} {n n' : Node} (h : g.Has n) (h' : g.Has n') (same : n.name = n'.name) : n = n' := by
  rw [Graph.Has, same] at h
  exact Option.some.inj (h.symm.trans h')

namespace Assembly

/-- A part stands at or below another. -/
inductive Below (a : Assembly) (x : PartId) : PartId → Prop
  | refl : Below a x x
  | child {y z : PartId} {name : String} (above : Below a x y) (child : a.child? y name = some z) : Below a x z

/-- What stands below a part stays there as long as no child changes. -/
theorem Below.mono {a a' : Assembly} {x y : PartId} (h : Below a x y)
    (kept : ∀ id name z, a.child? id name = some z → a'.child? id name = some z) : Below a' x y := by
  induction h with
  | refl => exact .refl
  | child _ child ih => exact ih.child (kept _ _ _ child)

/-- A part stands behind an output of another: it is the other, which is a leaf, or it stands at or below the child
behind the output. -/
inductive StandsBehind (a : Assembly) (x : PartId) (output : Option String) : PartId → Prop
  | leaf {l : Leaf} (leaf : a.leaf? x = some l) : StandsBehind a x output x
  | child {y z : PartId} {k : Composite} {next : Option String} (composite : a.composite? x = some k)
      (found : behind k output = .ok (y, next)) (below : Below a y z) : StandsBehind a x output z

def Holds (a : Assembly) (x : PartId) (h : Handle) : Prop := (a.leaf? x).bind (·.hold.handle?) = some h

end Assembly

namespace Build

open Assembly

/-! ## Bindings -/

/-- A remark, a warning, or the last message of a load. -/
inductive IsMessage : Event → Prop
  | remark (margin : Margin) (r : Remark) : IsMessage (.remarked margin r)
  | warning (w : Warning) : IsMessage (.warned w)
  | finished (parts nodes images : Nat) : IsMessage (.finished parts nodes images)

/-- Leaves below a part are bound to something, one after the other. -/
inductive Binds (r : Renderer σ) (x : PartId) (b : Binding) (c : Context σ) : Context σ → Prop
  | refl : Binds r x b c c
  | remark {c₁ : Context σ} (before : Binds r x b c c₁) (margin : Margin) (text : Remark) :
      Binds r x b c (c₁.push (.remarked margin text))
  | leaf {c₁ c₂ : Context σ} {y : PartId} {l : Leaf} {res : Result Unit} (before : Binds r x b c c₁)
      (below : Below c₁.assembly x y) (leaf : c₁.assembly.leaf? y = some l) (binds : BindsLeaf r y l b c₁ res c₂) :
      Binds r x b c c₂

theorem Binds.trans {r : Renderer σ} {x : PartId} {b : Binding} {c c₁ c₂ : Context σ} (h₁ : Binds r x b c c₁)
    (h₂ : Binds r x b c₁ c₂) : Binds r x b c c₂ := by
  induction h₂ with
  | refl => exact h₁
  | remark _ margin text ih => exact ih.remark margin text
  | leaf _ below leaf binds ih => exact ih.leaf below leaf binds

/-- What a leaf behind an output of one part holds is bound to leaves below another, unless nothing is held. -/
inductive Passes (r : Renderer σ) (producer : PartId) (output : Option String) (consumer : PartId) (c : Context σ) :
    Context σ → Prop
  | nothing : Passes r producer output consumer c c
  | handle {c₁ : Context σ} {x : PartId} {h : Handle} (behind : StandsBehind c.assembly producer output x)
      (holds : Holds c.assembly x h) (binds : Binds r consumer (.node h) c c₁) : Passes r producer output consumer c c₁

/-- A connection with its marks. -/
inductive Connects (r : Renderer σ) (producer consumer : PartId) (success : Bool) (c : Context σ) : Context σ → Prop
  | passes {c₁ : Context σ} {output : Option String} {i : Input}
      (passes : Passes r producer output consumer (c.edit (.began (.connection producer output consumer i))) c₁) :
      Connects r producer consumer success c (c₁.edit (.ended (.connection producer output consumer i) success))

/-! ## Failed constructions -/

def Fixed (settings : List (InputKey × Bound)) : Prop := ∀ key h, (key, Bound.node h) ∉ settings

/-- What a failed construction leaves behind: messages, refused nodes, and composites without children. -/
inductive Barren (r : Renderer σ) : Context σ → Context σ → Prop
  | refl (c : Context σ) : Barren r c c
  | trans {c c₁ c₂ : Context σ} (first : Barren r c c₁) (second : Barren r c₁ c₂) : Barren r c c₂
  | message (c : Context σ) {e : Event} (message : IsMessage e) : Barren r c (c.push e)
  | task {c c₁ : Context σ} {id : PartId} {name : String} (inner : Barren r (c.edit (.began (.child id name))) c₁) :
      Barren r c (c₁.edit (.ended (.child id name) false))
  | failed {c c₁ : Context σ} {type : NodeType} {role : Role} {settings : List (InputKey × Bound)}
      {name : Option String} {e : LoadError}
      (fixed : Fixed settings) (creation : CreatesLeaf r type role settings name c (.error e) c₁) : Barren r c c₁
  | composite (c : Context σ) (g : Graph) : Barren r c (c.edit (.add (.composite { graph := g })))

/-- How the leaf for a node comes about. -/
inductive MakesLeaf (r : Renderer σ) (n : Node) (c : Context σ) : Leaf → Context σ → Prop
  | forward {role : Role} (recipe : Recipe.of n = .ok (.forward role)) : MakesLeaf r n c ⟨.nothing, role⟩ c
  | create {c₁ : Context σ} {l : Leaf} {type : NodeType} {role : Role} {settings : List (InputKey × Bound)}
      (recipe : Recipe.of n = .ok (.create type role settings))
      (creation : CreatesLeaf r type role settings (some n.name) c (.ok l) c₁) : MakesLeaf r n c l c₁

/-! ## Asking for children -/

/-- A way to get parts. -/
inductive IsWay : SubPart σ → Prop
  | childPart (fuel : Nat) : IsWay (Build.childPart fuel)
  | part : IsWay Build.part

/-- A composite is asked for a child, in some way and at some place. -/
def Requests (W : Env σ) (id : PartId) (name : String) (c c' : Context σ) : Prop :=
  ∃ sub p res, IsWay sub ∧ sub id name (W.at p) c = .ok (res, c')

/-! ## Runs in a composite -/

/-- What a composite is doing. -/
inductive Phase where
  | asking
  | giving
deriving DecidableEq

/-- What takes inputs, if it is numbered from `s` on: the children of a composite while it is giving one, else the
composite itself. -/
def Takes (ph : Phase) (id : PartId) (s : Nat) (c : Context σ) (x : PartId) : Prop :=
  (match ph with
    | .asking => x = id
    | .giving => ∃ name, c.assembly.child? id name = some x) ∧ s ≤ x

/-- A composite has a child of those numbered from `s` on. -/
def Given (id : PartId) (s : Nat) (c : Context σ) (name : String) (x : PartId) : Prop :=
  c.assembly.child? id name = some x ∧ s ≤ x

/-- A free-standing graph gets its composite, or comes to it again, and is being built. -/
inductive Starts (g : NodeGraph) (c : Context σ) : PartId → Context σ → Prop
  | first (absent : c.assembly.freeStanding[g.name]? = none) :
      Starts g c c.assembly.size
        ((c.edit (.add (.composite { graph := .named g }))).edit (.freeStanding g.name (.building c.assembly.size)))
  | again {id : PartId} (built : c.assembly.freeStanding[g.name]? = some (.built id)) :
      Starts g c id (c.edit (.freeStanding g.name (.building id)))

/-- A part that is not of the graph of a consumer: it looks up a geometric property, stands for a free-standing graph,
or is a child of the top level. -/
inductive IsOutside (c : Context σ) (x : PartId) : Prop
  | geometry {property : String} (known : c.assembly.geometry[property]? = some x)
  | graph {name : String} (built : c.assembly.freeStanding[name]? = some (.built x))
  | top {t : PartId} {name : String} (top : c.assembly.top = some t) (child : Given t 0 c name x)

def HasGraph (a : Assembly) (id : PartId) (g : Graph) : Prop := ∃ k, a.composite? id = some k ∧ k.graph = g

theorem HasGraph.unique {a : Assembly} {id : PartId} {g g' : Graph} (h : HasGraph a id g)
    (h' : HasGraph a id g') : g = g' := by
  obtain ⟨k, there, rfl⟩ := h
  obtain ⟨k', there', rfl⟩ := h'
  cases there.symm.trans there'
  rfl

/-- What can happen in a composite, while inputs are set in parts numbered from `s` on. -/
inductive Run (W : Env σ) : Phase → PartId → Nat → Context σ → Context σ → Prop
  | refl (ph : Phase) (id : PartId) (s : Nat) (c : Context σ) : Run W ph id s c c
  | trans {ph : Phase} {id : PartId} {s : Nat} {c c₁ c₂ : Context σ} (first : Run W ph id s c c₁)
      (second : Run W ph id s c₁ c₂) : Run W ph id s c c₂
  | message {ph : Phase} {id : PartId} {s : Nat} (c : Context σ) {e : Event} (message : IsMessage e) :
      Run W ph id s c (c.push e)
  | barren {ph : Phase} {id : PartId} {s : Nat} {c c₁ : Context σ} (barren : Barren W.renderer c c₁) :
      Run W ph id s c c₁
  | task {id : PartId} {s : Nat} {c c₁ : Context σ} {name : String} {success : Bool}
      (inner : Run W .giving id c.assembly.size (c.edit (.began (.child id name))) c₁)
      (asks : Requests W id name c (c₁.edit (.ended (.child id name) success))) :
      Run W .asking id s c (c₁.edit (.ended (.child id name) success))
  | leafChild {id : PartId} {s : Nat} {c c₁ : Context σ} {n : Node} {k : Composite} {l : Leaf}
      (composite : c.assembly.composite? id = some k) (node : k.graph.Has n) (absent : k.child? n.name = none)
      (makes : MakesLeaf W.renderer n c l c₁) :
      Run W .giving id s c ((c₁.edit (.add (.leaf l))).edit (.child id n.name c₁.assembly.size))
  | compositeChild {id : PartId} {s : Nat} {c c₁ : Context σ} {n : Node} {k : Composite} {g : NodeGraph}
      (composite : c.assembly.composite? id = some k) (node : k.graph.Has n) (absent : k.child? n.name = none)
      (recipe : Recipe.of n = .ok .expand)
      (implementation : (W.catalog.nodeDefOf? n).bind W.catalog.implementation? = some g)
      (inner : Run W .asking c.assembly.size c.assembly.size (c.edit (.add (.composite { graph := .named g }))) c₁) :
      Run W .giving id s c (c₁.edit (.child id n.name c.assembly.size))
  | socket {id : PartId} {s : Nat} {c : Context σ} {g : Graph} {n : Node} {nd : NodeDef} {i element : Input}
      {interface : String} (composite : HasGraph c.assembly id g) (node : g.Has n)
      (there : (c.assembly.child? id n.name).isSome) (definition : W.catalog.nodeDefOf? n = some nd)
      (declared : i ∈ nd.inputs) (named : n.input? i.name = some element)
      (refers : element.interfaceName? = some interface) :
      Run W .giving id s c (c.edit (.socket id interface ⟨n.name, i⟩))
  | literal {ph : Phase} {id x : PartId} {s : Nat} {c c₁ : Context σ} {value type : String}
      (takes : Takes ph id s c x) (binds : Binds W.renderer x (.literal value type) c c₁) : Run W ph id s c c₁
  | inside {id x y : PartId} {s : Nat} {c c₁ : Context σ} {k : Composite} {e : Edge}
      (composite : c.assembly.composite? id = some k) (producer : Given id 0 c e.producer x)
      (consumer : Given id s c e.consumer y) (acyclic : k.dependsOn e.producer e.consumer = false)
      (connects : Connects W.renderer x y true c c₁) : Run W .giving id s c (c₁.edit (.edge id e))
  | insideFailed {id x y : PartId} {s : Nat} {c c₁ : Context σ} {k : Composite} {e : Edge}
      (composite : c.assembly.composite? id = some k) (producer : Given id 0 c e.producer x)
      (consumer : Given id s c e.consumer y) (acyclic : k.dependsOn e.producer e.consumer = false)
      (connects : Connects W.renderer x y false c c₁) : Run W .giving id s c c₁
  | geometry {ph : Phase} {id : PartId} {s : Nat} {c c₁ : Context σ} {g : GeomPropDef} {l : Leaf} {quantity : Lookup}
      (absent : c.assembly.geometry[g.name]? = none)
      (creation : CreatesLeaf W.renderer .inputLookup .plain [(.value, .word quantity.id)] (some g.name) c (.ok l) c₁) :
      Run W ph id s c ((c₁.edit (.add (.leaf l))).edit (.geometry g.name c₁.assembly.size))
  | top {ph : Phase} {id : PartId} {s : Nat} {c : Context σ} (absent : c.assembly.top = none) :
      Run W ph id s c
        ((c.edit (.add (.composite { graph := .document W.catalog.document }))).edit (.top c.assembly.size))
  | viaTop {ph : Phase} {id t : PartId} {s : Nat} {c c₁ : Context σ} {name : String} {success : Bool}
      (top : c.assembly.top = some t)
      (inner : Run W .giving t c.assembly.size (c.edit (.began (.child t name))) c₁)
      (asks : Requests W t name c (c₁.edit (.ended (.child t name) success))) :
      Run W ph id s c (c₁.edit (.ended (.child t name) success))
  | viaGraph {ph : Phase} {id x : PartId} {s : Nat} {c c₁ c₂ : Context σ} {g : NodeGraph} (starts : Starts g c x c₁)
      (inner : Run W .asking x c.assembly.size c₁ c₂) :
      Run W ph id s c (c₂.edit (.freeStanding g.name (.built x)))
  | outside {ph : Phase} {id x y : PartId} {s : Nat} {c c₁ : Context σ} {success : Bool} (producer : IsOutside c x)
      (takes : Takes ph id s c y) (connects : Connects W.renderer x y success c c₁) : Run W ph id s c c₁

end Build

end MaterialGraph
