import MaterialGraph.Proofs.Build.Answers
import MaterialGraph.Proofs.Placement

/-!
# The course of a load

A run tells what happens in a composite; a course also tells why. It has a scene, which says what is being built there
or what is being bound, and a place. Whatever is asked for from a scene is asked for by an element of it.

* `Scene` : what a course is about.
* `Speaks`, `Supplies`, `Wants`, `WantsTop` : what the elements of a scene ask for.
* `Receives`, `Provides` : which parts take inputs at a scene, and which outputs are bound there.
* `IsApart` : which part no graph shares.
* `Course` : what happens at a scene. A course opens others, at the scenes of what it asks for.
* `Course.steps` : a course is a sequence of steps.
-/

namespace MaterialGraph

set_option autoImplicit false

/-! ## Cycles -/

def Warning.IsCyclic (w : Warning) : Prop := ∃ text, w.cause? = some (.cycle text)

def Event.IsCyclic : Event → Prop
  | warned w => w.IsCyclic
  | _ => False

namespace Catalog

/-- A node of a graph needs another: one of its inputs is bound to it by the element that says what it is bound to. -/
def Needs (cat : Catalog) (g : Graph) (n m : Node) : Prop :=
  ∃ nd i, cat.nodeDefOf? n = some nd ∧ i ∈ nd.inputs ∧ (cat.elementOf g n i).isInput ∧
    (cat.elementOf g n i).nodeName? = some m.name ∧ g.node? m.name = some m

end Catalog

namespace Build

open Assembly Relation

variable {σ : Type}

/-! ## Scenes -/

/-- What a course is about. -/
inductive Scene where
  | load (selected : List (OutputKind × Candidate))
  | settle (gr : Group) (id : PartId)
  | override (id : PartId) (i : Input)
  | graph (id : PartId) (g : Graph) (required : List Output)
  | ask (id : PartId) (g : Graph) (name : String)
  | give (id : PartId) (g : Graph) (name : String)
  | node (id : PartId) (g : Graph) (n : Node)
  | input (id : PartId) (g : Graph) (n : Node) (x : PartId) (i : Input)

/-- What is bound at a scene: an element that can be connected, to an input of a part. -/
inductive Speaks (cat : Catalog) : Scene → Input → PartId → Input → Prop
  | override (id : PartId) (i : Input) : Speaks cat (.override id i) i id i
  | input (id : PartId) {g : Graph} {n : Node} (x : PartId) {i : Input} (isInput : (cat.elementOf g n i).isInput) :
      Speaks cat (.input id g n x i) (cat.elementOf g n i) x i

/-- What is bound at a scene by its literal: an element, to an input of a part. -/
inductive Supplies (cat : Catalog) : Scene → Input → PartId → Input → Prop
  | override (id : PartId) (i : Input) : Supplies cat (.override id i) i id i
  | input (id : PartId) (g : Graph) (n : Node) (x : PartId) (i : Input) :
      Supplies cat (.input id g n x i) (cat.elementOf g n i) x i

/-- Outputs of a free-standing graph are asked for from a scene. -/
inductive Wants (cat : Catalog) : Scene → NodeGraph → List Output → Prop
  | element {s : Scene} {element i : Input} {y : PartId} {graph output : String} {g : NodeGraph} {o : Output}
      (speaks : Speaks cat s element y i) (named : nonEmpty element.nodeGraph = some graph)
      (found : cat.document.nodeGraph? graph = some g) (takes : element.output? = some output)
      (there : (Graph.named g).output? output = some o) : Wants cat s g [o]
  | group {selected : List (OutputKind × Candidate)} {gr : Group} {g : NodeGraph} (mem : gr ∈ Group.ofSelected selected)
      (graph : gr.graph = .named g) (bare : gr.shaderRef = none) (known : g ∈ cat.document.nodeGraphs) :
      Wants cat (.load selected) g (gr.outputs.map (·.2))

/-- A node of the top level is asked for from a scene, by an output of the top level. -/
inductive WantsTop (cat : Catalog) : Scene → Node → Prop
  | element {s : Scene} {element i : Input} {y : PartId} {output : String} {o : Output} {n : Node} {nd : NodeDef}
      (speaks : Speaks cat s element y i) (unnamed : nonEmpty element.nodeGraph = none)
      (takes : element.output? = some output) (producer : topProducer? cat output = some (o, n, nd)) :
      WantsTop cat s n

/-- A node of a graph takes inputs at a scene. -/
inductive Consumes (id : PartId) (g : Graph) (n : Node) : Scene → Prop
  | node : Consumes id g n (.node id g n)
  | input (x : PartId) (i : Input) : Consumes id g n (.input id g n x i)

/-- A node of a composite draws on another: its child has been built, and it needs the other. -/
def Draws (cat : Catalog) (a : Assembly) (id : PartId) (g : Graph) (n m : Node) : Prop :=
  (a.child? id n.name).isSome ∧ cat.Needs g n m

/-- A part has been noted neither as a child nor as shared. -/
def IsApart (c : Context σ) (id : PartId) : Prop := id ∉ adopted c.journal ∧ id ∉ sharing c.journal

/-- A part takes inputs at a scene. -/
inductive Receives (a : Assembly) : Scene → PartId → Prop
  | override (id : PartId) (i : Input) : Receives a (.override id i) id
  | node {id y : PartId} {g : Graph} {n : Node} (composite : HasGraph a id g) (child : a.child? id n.name = some y) :
      Receives a (.node id g n) y
  | input (id : PartId) (g : Graph) (n : Node) (y : PartId) (i : Input) : Receives a (.input id g n y i) y

/-- An output of what is shared is bound at a scene: of the part for a geometric property, of a free-standing graph, or of
a child of the top level. -/
inductive Provides (cat : Catalog) (a : Assembly) (s : Scene) (x : PartId) : Option String → Prop
  | property {name : String} (known : a.geometry[name]? = some x) : Provides cat a s x none
  | graph {element i : Input} {y : PartId} {graph output : String} {h : NodeGraph} {o : Output}
      (speaks : Speaks cat s element y i) (named : nonEmpty element.nodeGraph = some graph)
      (found : cat.document.nodeGraph? graph = some h) (takes : element.output? = some output)
      (there : (Graph.named h).output? output = some o) (built : a.freeStanding[h.name]? = some (.built x)) :
      Provides cat a s x (some output)
  | top {t : PartId} {n : Node} {output : Option String} (wants : WantsTop cat s n) (top : a.top = some t)
      (child : a.child? t n.name = some x) : Provides cat a s x output

/-! ## Courses -/

/-- What happens at a scene. -/
inductive Course (W : Env σ) : Scene → Place → Context σ → Context σ → Prop
  | refl (s : Scene) (p : Place) (c : Context σ) : Course W s p c c
  | trans {s : Scene} {p : Place} {c c₁ c₂ : Context σ} (first : Course W s p c c₁) (second : Course W s p c₁ c₂) :
      Course W s p c c₂
  | message {s : Scene} {p : Place} (c : Context σ) {e : Event} (message : IsMessage e) (acyclic : ¬ e.IsCyclic) :
      Course W s p c (c.push e)
  | mark {s : Scene} {p : Place} (c : Context σ) {e : Edit} (mark : IsMark e) (routine : (Event.edited e).IsRoutine) :
      Course W s p c (c.edit e)
  | refused {s : Scene} {p : Place} {c c₁ : Context σ} {type : NodeType} {role : Role}
      {settings : List (InputKey × Bound)} {name : Option String} {e : LoadError}
      (held : ∀ key h, (key, Bound.node h) ∈ settings → ∃ x, Holds c.assembly x h)
      (creation : CreatesLeaf W.renderer type role settings name c (.error e) c₁) : Course W s p c c₁
  | wrap {gr : Group} {id : PartId} {p : Place} {c c₁ : Context σ} {x : PartId} {h : Handle} {l : Leaf}
      (holds : Holds c.assembly x h)
      (creation : CreatesLeaf W.renderer .passthrough .wrap [(.color, .node h)] none c (.ok l) c₁) :
      Course W (.settle gr id) p c (c₁.edit (.add (.leaf l)))
  | own {selected : List (OutputKind × Candidate)} {p : Place} {c c₁ : Context σ} {gr : Group}
      (mem : gr ∈ Group.ofSelected selected) (through : gr.shaderRef.isSome)
      (inner : Course W (.graph c.assembly.size gr.graph (gr.outputs.map (·.2))) p
        (c.edit (.add (.composite { graph := gr.graph }))) c₁) :
      Course W (.load selected) p c c₁
  | shared {selected : List (OutputKind × Candidate)} {p : Place} {c c₁ : Context σ} {t : PartId} {gr : Group}
      (mem : gr ∈ Group.ofSelected selected) (top : c.assembly.top = some t)
      (inner : Course W (.graph t (.document W.catalog.document) (gr.outputs.map (·.2))) p c c₁) :
      Course W (.load selected) p c c₁
  | settle {selected : List (OutputKind × Candidate)} {p : Place} {c c₁ : Context σ} {gr : Group} {id : PartId}
      (mem : gr ∈ Group.ofSelected selected) (inner : Course W (.settle gr id) p c c₁) :
      Course W (.load selected) p c c₁
  | overriding {gr : Group} {id : PartId} {p : Place} {c c₁ : Context σ} {r : ShaderRef} {i : Input}
      (reference : gr.shaderRef = some r) (bind : i ∈ r.bindInputs) (graph : HasGraph c.assembly id gr.graph)
      (apart : IsApart c id) (inner : Course W (.override id i) p c c₁) : Course W (.settle gr id) p c c₁
  | search {gr : Group} {id x : PartId} {p : Place} {c c₁ : Context σ} {name behind : String} {g : Graph} {o : Output}
      (child : c.assembly.child? id name = some x) (composite : HasGraph c.assembly x g) (mem : o ∈ g.outputs)
      (named : o.nodeName? = some behind) (inner : Course W (.ask x g behind) p c c₁) :
      Course W (.settle gr id) p c c₁
  | output {id : PartId} {g : Graph} {required : List Output} {p : Place} {c c₁ : Context σ} {o : Output}
      (mem : o ∈ required) (inner : Course W (.ask id g (o.nodeName?.getD "")) (p.enter .graph g.filePrefix) c c₁) :
      Course W (.graph id g required) p c c₁
  | task {id : PartId} {g : Graph} {name : String} {p : Place} {c c₁ : Context σ} {success : Bool}
      (inner : Course W (.give id g name) p (c.edit (.began (.child id name))) c₁) :
      Course W (.ask id g name) p c (c₁.edit (.ended (.child id name) success))
  | give {id : PartId} {g : Graph} {name : String} {n : Node} {p : Place} {c c₁ : Context σ}
      (found : g.node? name = some n) (inner : Course W (.node id g n) p c c₁) : Course W (.give id g name) p c c₁
  | leafChild {id : PartId} {g : Graph} {n : Node} {p : Place} {c c₁ : Context σ} {k : Composite} {l : Leaf}
      (composite : c.assembly.composite? id = some k) (graph : k.graph = g) (node : g.Has n)
      (absent : k.child? n.name = none) (makes : MakesLeaf W.renderer n c l c₁) :
      Course W (.node id g n) p c ((c₁.edit (.add (.leaf l))).edit (.child id n.name c₁.assembly.size))
  | expansion {id : PartId} {g : Graph} {n : Node} {p : Place} {c c₁ : Context σ} {h : NodeGraph}
      (recipe : Recipe.of n = .ok .expand)
      (implementation : (W.catalog.nodeDefOf? n).bind W.catalog.implementation? = some h)
      (inner : Course W (.graph c.assembly.size (.named h) h.outputs) (p.enter .node n.filePrefix)
        (c.edit (.add (.composite { graph := .named h }))) c₁)
      (barren : Barren W.renderer c c₁) : Course W (.node id g n) p c c₁
  | compositeChild {id : PartId} {g : Graph} {n : Node} {p : Place} {c c₁ : Context σ} {h : NodeGraph}
      (recipe : Recipe.of n = .ok .expand)
      (implementation : (W.catalog.nodeDefOf? n).bind W.catalog.implementation? = some h)
      (inner : Course W (.graph c.assembly.size (.named h) h.outputs) (p.enter .node n.filePrefix)
        (c.edit (.add (.composite { graph := .named h }))) c₁) :
      Course W (.node id g n) p c (c₁.edit (.child id n.name c.assembly.size))
  | input {id : PartId} {g : Graph} {n : Node} {p : Place} {c c₁ : Context σ} {nd : NodeDef} {i : Input} {x : PartId}
      (composite : HasGraph c.assembly id g) (noted : Event.edited (.child id n.name x) ∈ c.journal)
      (there : (c.assembly.child? id n.name).isSome) (definition : W.catalog.nodeDefOf? n = some nd)
      (declared : i ∈ nd.inputs)
      (inner : Course W (.input id g n x i) ((p.enter .node n.filePrefix).enter .input i.filePrefix) c c₁) :
      Course W (.node id g n) p c c₁
  | follow {id : PartId} {g : Graph} {n m : Node} {p : Place} {c c₁ : Context σ}
      (draws : Draws W.catalog c.assembly id g n m) (inner : Course W (.node id g m) p c c₁) :
      Course W (.node id g n) p c c₁
  | socket {id x : PartId} {g : Graph} {n : Node} {i : Input} {p : Place} (c : Context σ) (interface : String) :
      Course W (.input id g n x i) p c (c.edit (.socket id interface ⟨n.name, i⟩))
  | link {s : Scene} {id x y : PartId} {n m : Node} {p : Place} {c c₁ : Context σ} {k : Composite}
      {output : Option String} {i : Input} (composite : c.assembly.composite? id = some k)
      (consumes : Consumes id k.graph n s) (draws : Draws W.catalog c.assembly id k.graph n m)
      (acyclic : k.dependsOn m.name n.name = false) (producer : c.assembly.child? id m.name = some x)
      (receives : Receives c.assembly s y) (connected : connect x output y i (W.at p) c = .ok (.ok (), c₁)) :
      Course W s p c (c₁.edit (.edge id ⟨m.name, n.name⟩))
  | unlinked {s : Scene} {id x y : PartId} {g : Graph} {n m : Node} {p : Place} {c c₁ : Context σ}
      {output : Option String} {i : Input} {e : LoadError} (composite : HasGraph c.assembly id g)
      (consumes : Consumes id g n s) (draws : Draws W.catalog c.assembly id g n m)
      (producer : c.assembly.child? id m.name = some x) (receives : Receives c.assembly s y)
      (connected : connect x output y i (W.at p) c = .ok (.error e, c₁)) : Course W s p c c₁
  | connection {s : Scene} {x y : PartId} {p : Place} {c c₁ : Context σ} {output : Option String} {i : Input}
      {res : Result Unit} (provides : Provides W.catalog c.assembly s x output) (receives : Receives c.assembly s y)
      (connected : connect x output y i (W.at p) c = .ok (res, c₁)) : Course W s p c c₁
  | cycle {s : Scene} {id : PartId} {n m : Node} {p : Place} {c : Context σ} {k : Composite} {w : Warning}
      (composite : c.assembly.composite? id = some k) (consumes : Consumes id k.graph n s)
      (needs : W.catalog.Needs k.graph n m) (cyclic : k.dependsOn m.name n.name = true) :
      Course W s p c (c.push (.warned w))
  | literal {s : Scene} {p : Place} {c c₁ : Context σ} {element i : Input} {y : PartId} {value : String}
      {res : Result Unit} (supplies : Supplies W.catalog s element y i) (literal : element.value? = some value)
      (bound : bindInput y i (.literal value element.type) (W.at p) c = .ok (res, c₁)) : Course W s p c c₁
  | geometry {s : Scene} {p : Place} {c c₁ : Context σ} {g : GeomPropDef} {l : Leaf} {quantity : Lookup}
      (absent : c.assembly.geometry[g.name]? = none)
      (creation : CreatesLeaf W.renderer .inputLookup .plain [(.value, .word quantity.id)] (some g.name) c (.ok l) c₁) :
      Course W s p c ((c₁.edit (.add (.leaf l))).edit (.geometry g.name c₁.assembly.size))
  | top {s : Scene} {p : Place} {c : Context σ} (absent : c.assembly.top = none) :
      Course W s p c
        ((c.edit (.add (.composite { graph := .document W.catalog.document }))).edit (.top c.assembly.size))
  | viaTop {s : Scene} {p : Place} {c c₁ : Context σ} {t : PartId} {n : Node} (wants : WantsTop W.catalog s n)
      (top : c.assembly.top = some t)
      (inner : Course W (.ask t (.document W.catalog.document) n.name)
        (p.enter .global W.catalog.document.filePrefix) c c₁) :
      Course W s p c c₁
  | viaGraph {s : Scene} {p : Place} {c c₁ c₂ : Context σ} {h : NodeGraph} {g : Graph} {x : PartId}
      {required : List Output} {sub : SubPart σ} {res : Result Unit} (wants : Wants W.catalog s h required)
      (starts : Starts h c x c₁) (graph : HasGraph c₁.assembly x g) (way : IsWay sub)
      (call : buildOutputs sub x required (W.at p) c₁ = .ok (res, c₂)) (inner : Course W (.graph x g required) p c₁ c₂) :
      Course W s p c (c₂.edit (.freeStanding h.name (.built x)))
  | busy {s : Scene} {p : Place} {c : Context σ} {h : NodeGraph} {x : PartId} {required : List Output}
      (wants : Wants W.catalog s h required) (building : c.assembly.freeStanding[h.name]? = some (.building x)) :
      Course W s p c (c.push (.warned (.failed (.cycle ("node graph " ++ h.name ++ " depends on itself")))))

variable {W : Env σ} {c c' : Context σ} {s : Scene} {p : Place}

/-- A course is a sequence of steps. -/
theorem Course.steps (h : Course W s p c c') : Steps W.renderer c c' := by
  induction h with
  | refl => exact .refl
  | trans _ _ ih₁ ih₂ => exact ih₁.trans ih₂
  | message _ message => exact .single (.message message)
  | mark _ mark => exact .single (.mark mark)
  | task _ ih => exact ((ReflTransGen.single (.mark (.began _))).trans ih).tail (.mark (.ended _ _))
  | refused held creation => exact .single (.refused held creation)
  | wrap holds creation =>
      refine .single (.create rfl (fun key h mem => ?_) creation)
      cases List.mem_singleton.1 mem
      exact ⟨_, holds⟩
  | own _ _ _ ih => exact (ReflTransGen.single (.composite _)).trans ih
  | shared _ _ _ ih | settle _ _ ih | overriding _ _ _ _ _ ih | search _ _ _ _ _ ih | output _ _ ih | give _ _ ih
    | input _ _ _ _ _ _ ih | follow _ _ ih | viaTop _ _ _ ih => exact ih
  | leafChild _ _ _ _ makes => exact (ReflTransGen.single makes.steps).tail (.note (.child _ _ _))
  | expansion _ _ _ _ ih => exact (ReflTransGen.single (.composite _)).trans ih
  | compositeChild _ _ _ ih => exact ((ReflTransGen.single (.composite _)).trans ih).tail (.note (.child _ _ _))
  | socket => exact .single (.note (.socket _ _ _))
  | link _ _ _ _ _ _ connected => exact (after_connect _ _ connected).steps.tail (.note (.edge _ _))
  | unlinked _ _ _ _ _ connected | connection _ _ connected => exact (after_connect _ _ connected).steps
  | cycle | busy => exact .single (.message (.warning _))
  | literal _ _ bound =>
      have binds := after_bindInput _ _ bound
      exact .single (.literal binds)
  | geometry absent creation => exact creation.steps_geometry absent
  | top absent => exact (ReflTransGen.single (.composite _)).tail (.share (.top absent))
  | viaGraph _ starts _ _ _ _ ih => exact (starts.steps.trans ih).tail (.share (.freeStanding _ _))

theorem Course.extends (h : Course W s p c c') : Extends c.assembly c'.assembly := h.steps.extends

theorem Course.suffix (h : Course W s p c c') : c.journal <:+ c'.journal := h.steps.moves.suffix

theorem Draws.extends {cat : Catalog} {a a' : Assembly} {id : PartId} {g : Graph} {n m : Node}
    (h : Draws cat a id g n m) (ext : Extends a a') : Draws cat a' id g n m :=
  ⟨ext.child h.1, h.2⟩

theorem draws_path {cat : Catalog} {a a' : Assembly} {id : PartId} {g : Graph} {n m : Node}
    (path : ReflTransGen (Draws cat a id g) n m) (ext : Extends a a') : ReflTransGen (Draws cat a' id g) n m :=
  ReflTransGen.mono (fun _ _ draws => Draws.extends draws ext) _ _ path

/-- A node on which children draw is built for their sake. -/
theorem Course.path {id : PartId} {g : Graph} {n m : Node}
    (path : ReflTransGen (Draws W.catalog c.assembly id g) n m) (h : Course W (.node id g m) p c c') :
    Course W (.node id g n) p c c' := by
  induction path using ReflTransGen.head_induction_on with
  | refl => exact h
  | head first _ ih => exact .follow first ih

theorem Course.remark (s : Scene) (p : Place) (c : Context σ) (margin : Margin) (r : Remark) :
    Course W s p c (c.push (.remarked margin r)) :=
  .message c (.remark margin r) not_false

/-! ## What is shared -/

/-- A composite stands for a graph of the document by its name. -/
def StandsFor (W : Env σ) (a : Assembly) (id : PartId) (name : String) : Prop :=
  ∃ h ∈ W.catalog.document.nodeGraphs, h.name = name ∧ HasGraph a id (.named h)

/-- What is shared under a name stands for something of that name. -/
structure Houses (W : Env σ) (c : Context σ) : Prop where
  top : ∀ t, c.assembly.top = some t → HasGraph c.assembly t (.document W.catalog.document)
  graph : ∀ (name : String) (state : Construction), c.assembly.freeStanding[name]? = some state →
    StandsFor W c.assembly state.id name
  property : ∀ (name : String) (x : PartId), c.assembly.geometry[name]? = some x → ∃ l, c.assembly.leaf? x = some l

theorem StandsFor.extends {a a' : Assembly} {id : PartId} {name : String} (h : StandsFor W a id name)
    (ext : Extends a a') : StandsFor W a' id name :=
  let ⟨graph, mem, named, there⟩ := h
  ⟨graph, mem, named, there.extends ext⟩

theorem Wants.mem {cat : Catalog} {g : NodeGraph} {required : List Output} (h : Wants cat s g required) :
    g ∈ cat.document.nodeGraphs := by
  cases h with
  | element _ _ found => exact List.mem_of_find?_eq_some found
  | group _ _ _ known => exact known

namespace Houses

theorem start (system : σ) : Houses W { system } := by
  refine ⟨nofun, fun name state known => ?_, fun name x known => ?_⟩
  all_goals
    rw [Std.TreeMap.getElem?_emptyc] at known
    cases known

theorem kept (h : Houses W c) (ext : Extends c.assembly c'.assembly) (top : c'.assembly.top = c.assembly.top)
    (geometry : c'.assembly.geometry = c.assembly.geometry)
    (freeStanding : c'.assembly.freeStanding = c.assembly.freeStanding) : Houses W c' := by
  refine ⟨fun t ht => ?_, fun name state known => ?_, fun name x known => ?_⟩
  · rw [top] at ht
    exact (h.top t ht).extends ext
  · rw [freeStanding] at known
    exact (h.graph name state known).extends ext
  · rw [geometry] at known
    obtain ⟨l, leaf⟩ := h.property name x known
    exact ext.leaf leaf

theorem rebinds (h : Houses W c) {S : PartId → Prop} (same : Rebinds S c.assembly c'.assembly) : Houses W c' :=
  h.kept (.of_rebinds same) same.top same.geometry same.freeStanding

theorem same (h : Houses W c) (assembly : c'.assembly = c.assembly) : Houses W c' :=
  h.kept (assembly ▸ .refl _) (by rw [assembly]) (by rw [assembly]) (by rw [assembly])

theorem message (h : Houses W c) (e : Event) : Houses W (c.push e) := h.same rfl

theorem mark (h : Houses W c) {e : Edit} (mark : IsMark e) : Houses W (c.edit e) := by
  cases mark <;> exact h.same rfl

theorem note (h : Houses W c) {e : Edit} (note : IsNote e) : Houses W (c.edit e) :=
  h.kept (.note _ note) (by cases note <;> rfl) (by cases note <;> rfl) (by cases note <;> rfl)

theorem add (h : Houses W c) (q : Part) : Houses W (c.edit (.add q)) := h.kept (.add _ q) rfl rfl rfl

theorem geometry (h : Houses W c) {name : String} {x : PartId} (leaf : ∃ l, c.assembly.leaf? x = some l) :
    Houses W (c.edit (.geometry name x)) := by
  refine ⟨h.top, h.graph, fun other y known => ?_⟩
  change (c.assembly.geometry.insert name x)[other]? = some y at known
  rw [Std.TreeMap.getElem?_insert] at known
  split at known
  · cases known
    exact leaf
  · exact h.property other y known

theorem freeStanding (h : Houses W c) {name : String} {state : Construction}
    (there : StandsFor W c.assembly state.id name) : Houses W (c.edit (.freeStanding name state)) := by
  refine ⟨h.top, fun other state' known => ?_, h.property⟩
  change (c.assembly.freeStanding.insert name state)[other]? = some state' at known
  rw [Std.TreeMap.getElem?_insert] at known
  split at known
  · next same =>
    rw [Std.LawfulEqCmp.compare_eq_iff_eq] at same
    cases known
    cases same
    exact there
  · exact h.graph other state' known

end Houses

theorem Starts.houses {h : NodeGraph} {x : PartId} (starts : Starts h c x c') (houses : Houses W c)
    (mem : h ∈ W.catalog.document.nodeGraphs) : Houses W c' ∧ StandsFor W c'.assembly x h.name := by
  cases starts with
  | first =>
      have there : StandsFor W (c.edit (.add (.composite { graph := .named h }))).assembly c.assembly.size h.name :=
        ⟨h, mem, rfl, hasGraph_added _⟩
      exact ⟨(houses.add _).freeStanding there, there⟩
  | again built =>
      have there := houses.graph _ _ built
      exact ⟨houses.freeStanding there, there⟩

theorem Course.houses (h : Course W s p c c') (houses : Houses W c) : Houses W c' := by
  induction h with
  | refl => exact houses
  | trans _ _ ih₁ ih₂ => exact ih₂ (ih₁ houses)
  | message => exact houses.message _
  | mark _ mark => exact houses.mark mark
  | task _ ih => exact (ih (houses.mark (.began _))).mark (.ended _ _)
  | refused _ creation => exact houses.same creation.assembly
  | wrap _ creation => exact (houses.same creation.assembly).add _
  | own _ _ _ ih | expansion _ _ _ _ ih => exact ih (houses.add _)
  | shared _ _ _ ih | settle _ _ ih | overriding _ _ _ _ _ ih | search _ _ _ _ _ ih | output _ _ ih | give _ _ ih
    | input _ _ _ _ _ _ ih | follow _ _ ih | viaTop _ _ _ ih => exact ih houses
  | leafChild _ _ _ _ makes => exact ((houses.same makes.assembly).add _).note (.child _ _ _)
  | compositeChild _ _ _ ih => exact (ih (houses.add _)).note (.child _ _ _)
  | socket => exact houses.note (.socket _ _ _)
  | link _ _ _ _ _ _ connected => exact (houses.rebinds (after_connect _ _ connected).rebinds).note (.edge _ _)
  | unlinked _ _ _ _ _ connected | connection _ _ connected =>
      exact houses.rebinds (after_connect _ _ connected).rebinds
  | cycle | busy => exact houses.message _
  | literal _ _ bound => exact houses.rebinds (after_bindInput _ _ bound).rebinds
  | @geometry s p c c₁ g l quantity absent creation =>
      refine ((houses.same creation.assembly).add _).geometry ⟨l, ?_⟩
      rw [Context.edit_assembly, leaf?_add_leaf, if_pos rfl]
  | top absent =>
      have added := houses.add (.composite { graph := .document W.catalog.document })
      refine ⟨fun t ht => ?_, added.graph, added.property⟩
      cases ht
      exact hasGraph_added _
  | viaGraph wants starts _ _ _ inner ih =>
      obtain ⟨houses₁, there⟩ := starts.houses houses wants.mem
      exact (ih houses₁).freeStanding (there.extends inner.extends)

end Build

end MaterialGraph
