import MaterialGraph.LoadResult
import MaterialGraph.Proofs.Build.Edits
import MaterialGraph.Proofs.Mirror.Documents
import MaterialGraph.Proofs.Walk

/-!
# States that differ in handles

* `Leaf.relabel`, `Action.relabel`, `Event.relabel`, `LoadResult.relabel` : other handles in the place of those that
  something names.
* `Assembly.Twin` : the same but for handles and the order of nodes in named graphs.
* `Assembly.Twin.ofAssembly` : then the same is handed over, but for handles.
-/

namespace MaterialGraph

set_option autoImplicit false

/-! ## Other handles -/

section

variable (ρ : Handle → Handle)

def Hold.relabel : Hold → Hold
  | nothing => nothing
  | owned h => owned (ρ h)
  | borrowed h => borrowed (ρ h)

def Leaf.relabel (l : Leaf) : Leaf := { l with hold := l.hold.relabel ρ }

def Binding.relabel : Binding → Binding
  | node h => node (ρ h)
  | literal value type => literal value type

def Bound.relabel : Bound → Bound
  | node h => node (ρ h)
  | floats x => floats x
  | word n => word n

def Action.relabel : Action → Action
  | bind h key value => bind (ρ h) key (value.relabel ρ)
  | rename h name => rename (ρ h) name
  | delete h => delete (ρ h)

def Event.isRemark : Event → Bool
  | remarked _ _ => true
  | _ => false

/-- The same event with other nodes. Edits are not shown to anyone and stay as they are. -/
def Event.relabel : Event → Event
  | created type reply => created type (reply.map ρ)
  | acted a reply => acted (a.relabel ρ) reply
  | undeleted h e => undeleted (ρ h) e
  | e => e

def ImageNode.relabel (i : ImageNode) : ImageNode := { i with node := ρ i.node }

def LoadResult.relabel (r : LoadResult) : LoadResult where
  nodes := r.nodes.map ρ
  rootIndices := r.rootIndices
  images := r.images.map (ImageNode.relabel ρ)

def relabelSettings (settings : List (InputKey × Bound)) : List (InputKey × Bound) :=
  settings.map fun (key, value) => (key, value.relabel ρ)

end

section

variable {ρ : Handle → Handle}

@[simp] theorem Hold.handle?_relabel (h : Hold) : (h.relabel ρ).handle? = h.handle?.map ρ := by cases h <;> rfl

@[simp] theorem Hold.owned?_relabel (h : Hold) : (h.relabel ρ).owned? = h.owned?.map ρ := by cases h <;> rfl

@[simp] theorem Leaf.role_relabel (l : Leaf) : (l.relabel ρ).role = l.role := rfl

@[simp] theorem Leaf.hold_relabel (l : Leaf) : (l.relabel ρ).hold = l.hold.relabel ρ := rfl

@[simp] theorem Event.isShown_relabel (e : Event) : (e.relabel ρ).isShown = e.isShown := by
  cases e <;> rfl

theorem leafHandle_relabel (l : Leaf) : Assembly.leafHandle (l.relabel ρ) = (Assembly.leafHandle l).map ρ := by
  unfold Assembly.leafHandle
  rw [Leaf.hold_relabel, Hold.handle?_relabel]
  cases l.hold.handle? <;> rfl

theorem Bound.relabel_id : Bound.relabel id = id := by
  funext b
  cases b <;> rfl

theorem Action.relabel_id (a : Action) : a.relabel id = a := by
  cases a <;> simp [relabel, Bound.relabel_id]

theorem Event.relabel_id (e : Event) : e.relabel id = e := by
  cases e with
  | created type reply => cases reply <;> rfl
  | acted a reply => rw [relabel, a.relabel_id]
  | _ => rfl

theorem LoadResult.relabel_id (r : LoadResult) : r.relabel id = r := by
  have images : r.images.map (ImageNode.relabel id) = r.images := List.map_id r.images
  simp [relabel, images]

end

/-! ## Assemblies -/

/-- Two composites are the same but for the order of nodes in their graphs. -/
structure Composite.Twin (k k' : Composite) : Prop where
  graph : k.graph.Alike k'.graph
  rest : k' = { k with graph := k'.graph }

/-- Two parts are the same but for handles and the order of nodes. -/
inductive Part.Twin (ρ : Handle → Handle) : Part → Part → Prop
  | leaf (l : Leaf) : Part.Twin ρ (.leaf l) (.leaf (l.relabel ρ))
  | composite {k k' : Composite} (twin : k.Twin k') : Part.Twin ρ (.composite k) (.composite k')

/-- Two assemblies are the same but for handles and the order of nodes. -/
structure Assembly.Twin (ρ : Handle → Handle) (a a' : Assembly) : Prop where
  part? : ∀ id : PartId, Option.Rel (Part.Twin ρ) (a.part? id) (a'.part? id)
  top : a'.top = a.top
  geometry : a'.geometry = a.geometry
  freeStanding : a'.freeStanding = a.freeStanding

namespace Composite.Twin

variable {k k' : Composite} (h : k.Twin k')

include h

theorem children : k'.children = k.children := by rw [h.rest]

theorem child? (name : String) : k'.child? name = k.child? name := by rw [Composite.child?, Composite.child?, h.children]

theorem socketsFor? (i : Input) : k'.socketsFor? i = k.socketsFor? i := by
  rw [h.rest]
  rfl

theorem dependsOn (consumer producer : String) : k'.dependsOn consumer producer = k.dependsOn consumer producer := by
  rw [h.rest]
  rfl

theorem behind (output : Option String) : Assembly.behind k' output = Assembly.behind k output := by
  have child : k'.child? = k.child? := funext h.child?
  unfold Assembly.behind
  simp only [h.graph.output?, h.graph.outputs, h.graph.name, child]

end Composite.Twin

namespace Assembly.Twin

variable {ρ : Handle → Handle} {a a' : Assembly} (h : a.Twin ρ a')

include h

theorem size : a'.size = a.size := by
  have same (id : PartId) : a'.size ≤ id ↔ a.size ≤ id := by
    rw [← part?_eq_none, ← part?_eq_none]
    obtain ⟨none, none'⟩ | ⟨q, q', some, some', -⟩ := rel_none_or_some (h.part? id)
    · simp [none, none']
    · simp [some, some']
  exact Nat.le_antisymm ((same _).2 (Nat.le_refl _)) ((same _).1 (Nat.le_refl _))

theorem leaf? (id : PartId) : a'.leaf? id = (a.leaf? id).map (Leaf.relabel ρ) := by
  unfold Assembly.leaf?
  obtain ⟨none, none'⟩ | ⟨q, q', some, some', twin⟩ := rel_none_or_some (h.part? id)
  · rw [none, none']
    rfl
  · rw [some, some']
    cases twin <;> rfl

theorem composite? (id : PartId) : Option.Rel Composite.Twin (a.composite? id) (a'.composite? id) := by
  unfold Assembly.composite?
  obtain ⟨none, none'⟩ | ⟨q, q', some, some', twin⟩ := rel_none_or_some (h.part? id)
  · rw [none, none']
    exact .none
  · rw [some, some']
    cases twin with
    | leaf => exact .none
    | composite twin => exact .some twin

theorem child? (id : PartId) (name : String) :
    (a'.composite? id).bind (·.child? name) = (a.composite? id).bind (·.child? name) := by
  obtain ⟨none, none'⟩ | ⟨k, k', some, some', twin⟩ := rel_none_or_some (h.composite? id)
  · rw [none, none']
  · rw [some, some']
    exact twin.child? name

theorem children : a'.children = a.children := by
  funext id
  unfold Assembly.children
  obtain ⟨none, none'⟩ | ⟨k, k', some, some', twin⟩ := rel_none_or_some (h.composite? id)
  · rw [none, none']
  · rw [some, some']
    exact congrArg Std.TreeMap.values twin.children

/-! ## Edits -/

theorem add {q q' : Part} (twin : q.Twin ρ q') : (a.apply (.add q)).Twin ρ (a'.apply (.add q')) where
  part? id := by
    rw [part?_add, part?_add, h.size]
    split
    · exact .some twin
    · exact h.part? id
  top := h.top
  geometry := h.geometry
  freeStanding := h.freeStanding

theorem setLeaf (id : PartId) (l : Leaf) : (a.apply (.leaf id l)).Twin ρ (a'.apply (.leaf id (l.relabel ρ))) where
  part? x := by
    by_cases hx : x = id
    · subst hx
      rcases Nat.lt_or_ge x a.size with hlt | hge
      · rw [part?_leaf_self _ hlt, part?_leaf_self _ (h.size ▸ hlt)]
        exact .some (.leaf l)
      · rw [part?_eq_none.2 (by simpa using hge), part?_eq_none.2 (by simpa [h.size] using hge)]
        exact .none
    · rw [part?_leaf_of_ne _ hx, part?_leaf_of_ne _ hx]
      exact h.part? x
  top := h.top
  geometry := h.geometry
  freeStanding := h.freeStanding

theorem modifyComposite {f : Composite → Composite} (hf : ∀ k k', Composite.Twin k k' → (f k).Twin (f k'))
    (id : PartId) : (a.modifyComposite id f).Twin ρ (a'.modifyComposite id f) where
  part? x := by
    rw [part?_modifyComposite, part?_modifyComposite]
    split
    · refine rel_map (h.part? x) fun q q' twin => ?_
      cases twin with
      | leaf l => exact .leaf l
      | composite twin => exact .composite (hf _ _ twin)
    · exact h.part? x
  top := h.top
  geometry := h.geometry
  freeStanding := h.freeStanding

theorem setChild (id : PartId) (name : String) (child : PartId) :
    (a.apply (.child id name child)).Twin ρ (a'.apply (.child id name child)) := by
  refine h.modifyComposite (f := fun k => { k with children := k.children.insert name child })
    (fun k k' twin => ⟨twin.graph, ?_⟩) id
  rw [twin.rest]

theorem addSocket (id : PartId) (interface : String) (s : Socket) :
    (a.apply (.socket id interface s)).Twin ρ (a'.apply (.socket id interface s)) := by
  refine h.modifyComposite
    (f := fun k => { k with sockets := k.sockets.insert interface ((k.sockets.getD interface []) ++ [s]) })
    (fun k k' twin => ⟨twin.graph, ?_⟩) id
  rw [twin.rest]

theorem addEdge (id : PartId) (e : Edge) : (a.apply (.edge id e)).Twin ρ (a'.apply (.edge id e)) := by
  refine h.modifyComposite (f := fun k => k.note e)
    (fun k k' twin => ⟨twin.graph, ?_⟩) id
  rw [twin.rest]
  rfl

theorem setTop (id : PartId) : (a.apply (.top id)).Twin ρ (a'.apply (.top id)) :=
  ⟨h.part?, rfl, h.geometry, h.freeStanding⟩

theorem setGeometry (name : String) (id : PartId) :
    (a.apply (.geometry name id)).Twin ρ (a'.apply (.geometry name id)) :=
  ⟨h.part?, h.top, by rw [apply, apply, h.geometry], h.freeStanding⟩

theorem setFreeStanding (name : String) (state : Construction) :
    (a.apply (.freeStanding name state)).Twin ρ (a'.apply (.freeStanding name state)) :=
  ⟨h.part?, h.top, h.geometry, by rw [apply, apply, h.freeStanding]⟩

/-! ## What is read -/

theorem outputHandle? (fuel : Nat) (id : PartId) (output : Option String) :
    a'.outputHandle? fuel id output = (a.outputHandle? fuel id output).map (Except.map ρ) := by
  induction fuel generalizing id output with
  | zero => rfl
  | succ fuel ih =>
      unfold Assembly.outputHandle?
      obtain ⟨none, none'⟩ | ⟨q, q', some, some', twin⟩ := rel_none_or_some (h.part? id)
      · rw [none, none']
        rfl
      · rw [some, some']
        cases twin with
        | leaf l => exact congrArg _ (leafHandle_relabel l)
        | composite twin =>
            dsimp only
            rw [twin.behind]
            split
            · rfl
            · exact ih _ _

theorem walk (fuel : Nat) (seen stack : List PartId) : a'.walk fuel seen stack = a.walk fuel seen stack := by
  induction fuel generalizing seen stack with
  | zero => cases stack <;> rfl
  | succ fuel ih =>
      cases stack with
      | nil => rfl
      | cons id stack => rw [Assembly.walk, Assembly.walk, ih, ih, h.children]

theorem reachable (starts : List PartId) : a'.reachable starts = a.reachable starts := by
  rw [Assembly.reachable, Assembly.reachable, h.walk, walkLength_eq, walkLength_eq, unseenChildren, unseenChildren,
    h.children, h.size]

theorem shared : a'.shared = a.shared := by
  rw [Assembly.shared, Assembly.shared, h.top, h.geometry, h.freeStanding]

/-! ## Results -/

theorem left (parts : List PartId) : LoadResult.left a' parts = LoadResult.left a parts := by
  rw [LoadResult.left, LoadResult.left, h.shared, h.reachable, h.size]

theorem ownedNode? (id : PartId) : LoadResult.ownedNode? a' id = (LoadResult.ownedNode? a id).map ρ := by
  rw [LoadResult.ownedNode?, LoadResult.ownedNode?, h.leaf?, Option.bind_map, Option.map_bind]
  simp only [Function.comp_def, Leaf.hold_relabel, Hold.owned?_relabel]

theorem imageNode? (id : PartId) :
    LoadResult.imageNode? a' id = (LoadResult.imageNode? a id).map (ImageNode.relabel ρ) := by
  rw [LoadResult.imageNode?, LoadResult.imageNode?, h.leaf?]
  cases a.leaf? id with
  | none => rfl
  | some l =>
      obtain ⟨hold, role⟩ := l
      cases role with
      | image params =>
          simp only [Option.map_some, Leaf.relabel, Hold.handle?_relabel]
          split
          · rfl
          · cases hold.handle? <;> rfl
      | _ => rfl

theorem rootHandle? (root : Option PartId) : LoadResult.rootHandle? a' root = (LoadResult.rootHandle? a root).map ρ := by
  unfold LoadResult.rootHandle?
  cases root with
  | none => rfl
  | some id =>
      rw [Option.bind_some, Option.bind_some, h.leaf?]
      cases a.leaf? id with
      | none => rfl
      | some l => exact Hold.handle?_relabel l.hold

end Assembly.Twin

/-- The place of a handle in a list is that of its label among the labels. -/
theorem findIdx?_map_label {ρ : Handle → Handle} (injective : Function.Injective ρ) (l : List Handle) (h : Handle) :
    ((l.map ρ).findIdx? fun g => g = ρ h) = l.findIdx? fun g => g = h := by
  rw [List.findIdx?_map]
  simp only [Function.comp_def, injective.eq_iff]

/-- What is handed over is the same, but for handles. -/
theorem Assembly.Twin.ofAssembly {ρ : Handle → Handle} {a a' : Assembly} (h : a.Twin ρ a')
    (injective : Function.Injective ρ) (parts : List PartId) (roots : PerKind (Option PartId)) :
    LoadResult.ofAssembly a' parts roots = (LoadResult.ofAssembly a parts roots).relabel ρ := by
  have nodes (l : List PartId) :
      l.filterMap (LoadResult.ownedNode? a') = (l.filterMap (LoadResult.ownedNode? a)).map ρ := by
    rw [List.map_filterMap, funext h.ownedNode?]
  have images (l : List PartId) :
      l.filterMap (LoadResult.imageNode? a') = (l.filterMap (LoadResult.imageNode? a)).map (ImageNode.relabel ρ) := by
    rw [List.map_filterMap, funext h.imageNode?]
  unfold LoadResult.ofAssembly LoadResult.relabel
  dsimp only
  rw [h.shared, h.reachable, nodes, images]
  congr 2
  funext root
  rw [h.rootHandle?, Option.bind_map]
  simp only [Function.comp_def, findIdx?_map_label injective]

end MaterialGraph
