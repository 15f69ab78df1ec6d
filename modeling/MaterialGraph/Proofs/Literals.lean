import MaterialGraph.Proofs.Governing
import MaterialGraph.Proofs.Wiring

/-!
# Literal inputs of a mapped node

If the inputs that a definition declares are given literals at most, the node of the renderer gets exactly these.

* `Mapping.literals` : the settings that the literals of a node come to.
* `Presents` : the assembly and one node of the renderer are as described.
* `createLeaf_presents` : what a new node looks like, if nodes of its type can be created.
* `resolveInputs_presents` : what the inputs of a node add to it.
* `buildChild_binds_literals` : all that is bound to the node of a child whose inputs are given literals at most.
-/

namespace MaterialGraph

set_option autoImplicit false

open Build Assembly Number

/-! ## What is given for an input -/

/-- An element refers to nothing else: neither to a node, an output or an input, nor to a geometric property. -/
structure Input.IsUnconnected (e : Input) : Prop where
  nodeName : e.nodeName? = none
  output : e.output? = none
  interface : e.interfaceName? = none
  geomProp : nonEmpty e.defaultGeomProp = none

instance (e : Input) : Decidable e.IsUnconnected :=
  decidable_of_iff
    (e.nodeName? = none ∧ e.output? = none ∧ e.interfaceName? = none ∧ nonEmpty e.defaultGeomProp = none)
    ⟨fun h => ⟨h.1, h.2.1, h.2.2.1, h.2.2.2⟩, fun h => ⟨h.1, h.2, h.3, h.4⟩⟩

/-- The four floats that the literal of an element stands for. -/
def Input.floats? (e : Input) : Option Float4 := e.value?.bind fun value => Literal.floats? value e.type

namespace Mapping

variable {m : Mapping} {i e : Input} {key : InputKey} {v : Bound}

/-- What the literal of an element comes to, as a setting of a declared input. -/
def setting (m : Mapping) (i e : Input) : List (InputKey × Bound) :=
  match m.key? i.name, e.floats? with
  | some key, some x => [(key, .floats x)]
  | _, _ => []

theorem mem_setting : (key, v) ∈ m.setting i e ↔ m.key? i.name = some key ∧ ∃ x, e.floats? = some x ∧ v = .floats x := by
  unfold setting
  cases m.key? i.name with
  | none => simp
  | some k => cases e.floats? with
    | none => simp
    | some x => simp [eq_comm]

/-- The settings that the literals for the inputs of a definition come to. -/
def literals (m : Mapping) (n : Node) (nd : NodeDef) : List (InputKey × Bound) :=
  nd.inputs.flatMap fun i => m.setting i (n.elementFor i)

def opcodeSetting (m : Mapping) : List (InputKey × Bound) := m.opcode.toList.map fun opcode => (.op, .word opcode.id)

theorem mem_opcodeSetting : (key, v) ∈ m.opcodeSetting ↔ key = .op ∧ ∃ o, m.opcode = some o ∧ v = .word o.id := by
  unfold opcodeSetting
  cases m.opcode with
  | none => simp
  | some o => simp

theorem nodup_setting (m : Mapping) (i e : Input) : ((m.setting i e).map Prod.fst).Nodup := by
  unfold setting
  split
  · exact List.nodup_singleton _
  · exact List.nodup_nil

/-- Different inputs of a definition are set under different keys, and none under that of the opcode. -/
theorem nodup_settings {n : Node} {nd : NodeDef} (general : n.category ∉ bespoke)
    (entry : entryFor? n.category n.type = some m) (distinct : (nd.inputs.map Input.name).Nodup) :
    ((m.opcodeSetting ++ m.literals n nd).map Prod.fst).Nodup := by
  have calls : n.CallsFor ⟨m.type, m.inputs.map Prod.snd, m.opcodeSetting⟩ := .entry general entry
  have keyed {i : Input} {key : InputKey} (mem : key ∈ (m.setting i (n.elementFor i)).map Prod.fst) :
      m.key? i.name = some key := by
    obtain ⟨⟨_, v⟩, there, rfl⟩ := List.mem_map.1 mem
    exact (mem_setting.1 there).1
  rw [List.map_append, List.nodup_append']
  refine ⟨calls.nodup, ?_, ?_⟩
  · rw [literals, List.map_flatMap, List.nodup_flatMap]
    refine ⟨fun i _ => m.nodup_setting i _, (List.pairwise_map.1 distinct).imp ?_⟩
    intro i j different key hi hj
    exact different (name_eq_of_nodup calls.keys_nodup (keyed hi) (keyed hj))
  · intro key set mem
    rw [literals, List.map_flatMap] at mem
    obtain ⟨i, -, mem⟩ := List.mem_flatMap.1 mem
    exact calls.apart (mem_inputKeys (keyed mem)) set

end Mapping

/-- Of a node that is set up from nothing, exactly the settings are bound. -/
theorem RecordedNode.bound_dressed_iff {r : RecordedNode} {settings : List (InputKey × Bound)} {key : InputKey} {v : Bound}
    (bare : r.bound key = none) (nodup : (settings.map Prod.fst).Nodup) :
    (r.dressed settings).bound key = some v ↔ (key, v) ∈ settings := by
  refine ⟨fun bound => ?_, bound_dressed nodup⟩
  by_cases mem : key ∈ settings.map Prod.fst
  · obtain ⟨⟨_, w⟩, there, rfl⟩ := List.mem_map.1 mem
    rw [bound_dressed nodup there] at bound
    rwa [← Option.some.inj bound]
  · rw [bound_dressed_of_notMem mem, bare] at bound
    cases bound

/-- Settings are made one after the other. -/
theorem RecordedNode.dressed_append (r : RecordedNode) (settings more : List (InputKey × Bound)) :
    r.dressed (settings ++ more) = (r.dressed settings).dressed more := List.foldl_append

namespace Build

variable {E : Env Recorder} {c : Context Recorder} {a : Assembly} {h : Handle} {r : RecordedNode} {m : Mapping}
  {x id : PartId} {i e : Input} {n : Node}

/-! ## Inputs -/

/-- The assembly is a given one, and a handle that of a given node. -/
def Presents (a : Assembly) (h : Handle) (r : RecordedNode) (c : Context Recorder) : Prop :=
  c.assembly = a ∧ c.system.node? h = some r

theorem Presents.push (presents : Presents a h r c) (event : Event) : Presents a h r (c.push event) := presents

theorem after_bindNative_presents (recording : E.renderer = Recorder.renderer) (presents : Presents a h r c)
    (key : InputKey) (v : Float4) :
    After (bindNative h key (.floats v)) E c fun _ c' => Presents a h (r.bind key (.floats v)) c' := by
  obtain ⟨rfl, live⟩ := presents
  have bound : Presents c.assembly h (r.bind key (.floats v)) (c.acted E.renderer (.bind h key (.floats v))) := by
    refine ⟨rfl, ?_⟩
    rw [recording]
    change (Recorder.act (.bind h key (.floats v)) c.system).2.node? h = _
    rw [Recorder.act_bind, if_pos (show c.system.accepts (.floats v) = true from rfl), Recorder.node?_modify,
      if_pos rfl, live, Option.map_some]
  rw [bindNative, after_bind, after_act]
  split
  · exact after_pure.2 bound
  · exact after_pure.2 bound

/-- A mapped leaf that is given a literal binds it if it knows the input and the literal is numeric, and else nothing. -/
theorem after_bindMapped_presents (recording : E.renderer = Recorder.renderer) (presents : Presents a h r c)
    {value : String} (given : e.value? = some value) :
    After (bindMapped ⟨.owned h, .mapped m⟩ m i (.literal value e.type)) E c fun _ c' =>
      Presents a h (r.dressed (m.setting i e)) c' := by
  have floats : e.floats? = Literal.floats? value e.type := by rw [Input.floats?, given, Option.bind_some]
  unfold bindMapped Mapping.setting
  cases m.key? i.name with
  | none => exact after_pure.2 presents
  | some key =>
      dsimp only [leafHandle, Hold.handle?]
      rw [floats]
      split
      · next failed =>
        have none : Literal.floats? value e.type = none := by
          refine Option.eq_none_iff_forall_ne_some.2 fun v some => ?_
          rw [float4Of_eq_ok.2 some] at failed
          cases failed
        rw [none]
        exact after_pure.2 presents
      · next v read =>
        rw [float4Of_eq_ok.1 read]
        exact after_bindNative_presents recording presents key v

/-- A build that always returns has what holds after it. -/
theorem Total.exists {σ α : Type} {b : Build σ α} (total : Total b) {E : Env σ} {c : Context σ}
    {Q : α → Context σ → Prop} (after : After b E c Q) : ∃ v c', b E c = .ok (v, c') ∧ Q v c' := by
  obtain ⟨v, c', call⟩ := (total E c).exists_eq
  exact ⟨v, c', call, after.of_eq call⟩

/-- The literal of an element is bound, or there is nothing to bind. -/
theorem bindLiteral_presents (recording : E.renderer = Recorder.renderer) (presents : Presents a h r c)
    (leaf : a.leaf? x = some ⟨.owned h, .mapped m⟩) :
    ∃ c', bindLiteral e n x i E c = .ok ((), c') ∧ Presents a h (r.dressed (m.setting i e)) c' := by
  rw [bindLiteral]
  cases given : e.value? with
  | none =>
      have nothing : m.setting i e = [] := by
        unfold Mapping.setting Input.floats?
        rw [given]
        cases m.key? i.name <;> rfl
      rw [nothing]
      exact ⟨c, rfl, presents⟩
  | some value =>
      dsimp only
      have remarked : remark (.literal value) E c = .ok ((), c.push (.remarked E.margin (.literal value))) := rfl
      have after : After (bindLeaf x ⟨.owned h, .mapped m⟩ i (.literal value e.type)) E
          (c.push (.remarked E.margin (.literal value))) fun _ c' => Presents a h (r.dressed (m.setting i e)) c' :=
        after_bindMapped_presents recording (presents.push _) given
      obtain ⟨res, c₁, call, bound⟩ := (total_bindLeaf _ _ _ _).exists after
      rw [← bindInput_of_leaf (c := c.push _) (presents.1 ▸ leaf)] at call
      rw [bind_apply _ remarked, bind_apply _ call]
      cases res with
      | ok => exact ⟨c₁, rfl, bound⟩
      | error err =>
          dsimp only
          split
          · exact ⟨_, rfl, bound.push _⟩
          · exact ⟨_, rfl, bound.push _⟩

theorem effectiveInput_apply {g : Graph} (alone : (n.elementFor i).interfaceName? = none) :
    effectiveInput id g n i E c = .ok (n.elementFor i, c) := by
  unfold effectiveInput Node.elementFor at *
  cases own : n.input? i.name with
  | none => rfl
  | some element =>
      rw [own] at alone
      dsimp only [Option.getD_some] at alone ⊢
      rw [alone]
      rfl

variable (sub : SubPart Recorder) {g : Graph}

theorem bindElement_of_unconnected (alone : e.IsUnconnected) :
    bindElement sub id g n x i e E c = (do bindLiteral e n x i; return none : Build Recorder (Option Pending)) E c := by
  have inside : (pure .unsettled : Build Recorder Resolution) E c = .ok (.unsettled, c) := rfl
  have outside : connectOutside sub e x i E c = .ok (false, c) := by
    rw [connectOutside, alone.output]
    rfl
  rw [bindElement, alone.nodeName]
  dsimp only
  rw [bind_apply _ inside]
  dsimp only
  rw [bind_apply _ outside, if_neg Bool.false_ne_true, alone.geomProp]

/-- An input for which no other thing is given than a literal is set by it. -/
theorem resolveInput_presents (recording : E.renderer = Recorder.renderer) (presents : Presents a h r c)
    (composite : (a.composite? id).isSome) (leaf : a.leaf? x = some ⟨.owned h, .mapped m⟩)
    (alone : (n.elementFor i).IsUnconnected) :
    ∃ c', resolveInput sub id n x i E c = .ok (none, c') ∧
      Presents a h (r.dressed (m.setting i (n.elementFor i))) c' := by
  obtain ⟨k, composite⟩ := Option.isSome_iff_exists.1 composite
  obtain ⟨c', call, bound⟩ := bindLiteral_presents (n := n) (i := i) (e := n.elementFor i) recording presents leaf
  refine ⟨c', ?_, bound⟩
  rw [resolveInput, bind_apply _ assembly_apply, presents.1, composite]
  dsimp only
  rw [bind_apply _ (effectiveInput_apply alone.interface)]
  split
  · rw [bindElement_of_unconnected sub alone, bind_apply _ call]
    rfl
  · rw [bind_apply _ call]
    rfl

theorem mapM_presents {f : Input → Build Recorder (Option Pending)} {settings : Input → List (InputKey × Bound)}
    {l : List Input} (step : ∀ i ∈ l, ∀ c r, Presents a h r c →
      ∃ c', f i E c = .ok (none, c') ∧ Presents a h (r.dressed (settings i)) c')
    (presents : Presents a h r c) :
    ∃ c', l.mapM f E c = .ok (l.map fun _ => none, c') ∧ Presents a h (r.dressed (l.flatMap settings)) c' := by
  induction l generalizing c r with
  | nil => exact ⟨c, by rw [List.mapM_nil]; rfl, presents⟩
  | cons i l ih =>
      obtain ⟨c₁, call, first⟩ := step i List.mem_cons_self c r presents
      obtain ⟨c', calls, rest⟩ := ih (fun j hj => step j (List.mem_cons_of_mem i hj)) first
      refine ⟨c', ?_, ?_⟩
      · rw [List.mapM_cons, bind_apply _ call, bind_apply _ calls]
        rfl
      · rw [List.flatMap_cons, RecordedNode.dressed_append]
        exact rest

/-- The inputs of a node for which at most literals are given are set by these, in the order of the definition; no
connection has to wait. -/
theorem resolveInputs_presents (recording : E.renderer = Recorder.renderer) (presents : Presents a h r c)
    (composite : (a.composite? id).isSome) (leaf : a.leaf? x = some ⟨.owned h, .mapped m⟩) {nd : NodeDef}
    (definition : E.catalog.nodeDefOf? n = some nd) (alone : ∀ i ∈ nd.inputs, (n.elementFor i).IsUnconnected) :
    ∃ c', resolveInputs sub id n x E c = .ok ([], c') ∧ Presents a h (r.dressed (m.literals n nd)) c' := by
  have read : (catalog : Build Recorder Catalog) E c = .ok (E.catalog, c) := rfl
  have step : ∀ i ∈ nd.inputs, ∀ c r, Presents a h r c →
      ∃ c', (do
        remark (.input i.kind i.name)
        within .input i.filePrefix (resolveInput sub id n x i) : Build Recorder (Option Pending)) E c = .ok (none, c') ∧
          Presents a h (r.dressed (m.setting i (n.elementFor i))) c' := by
    intro i mem c r presents
    have remarked : remark (.input i.kind i.name) E c =
        .ok ((), c.push (.remarked E.margin (.input i.kind i.name))) := rfl
    rw [bind_apply _ remarked]
    exact resolveInput_presents sub (E := E.at _) recording (presents.push _) composite leaf (alone i mem)
  obtain ⟨c', calls, bound⟩ := mapM_presents step presents
  have nothing : ((nd.inputs.map fun _ => (none : Option Pending)).filterMap fun p => p) = [] := by simp
  refine ⟨c', ?_, bound⟩
  rw [resolveInputs, bind_apply _ read, definition]
  dsimp only
  rw [bind_apply _ calls, nothing]
  rfl

/-! ## A new node -/

/-- Nothing fails in setting up a live node with what is no node. -/
theorem Performs.granted {settings : List (InputKey × Bound)} {as : List Action} {c' : Context Recorder}
    {res : Except CallError Unit} (performs : Performs Recorder.renderer as c res c')
    (setup : ∀ act ∈ as, IsSetting h settings act) (plain : ∀ key g, (key, .node g) ∉ settings)
    (live : (c.system.node? h).isSome) : res = .ok () := by
  have obeyed {act : Action} {s : Recorder} (setting : IsSetting h settings act) (live : (s.node? h).isSome) :
      (Recorder.act act s).1 = .ok () := by
    obtain ⟨r, hr⟩ := Option.isSome_iff_exists.1 live
    cases setting with
    | @bind key value mem =>
        have accepts : s.accepts value = true := by
          cases value with
          | node g => exact absurd mem (plain key g)
          | floats | word => rfl
        rw [Recorder.act_bind, if_pos accepts, Recorder.modify, hr]
    | rename name => rw [Recorder.act_rename, Recorder.modify, hr]
  induction performs with
  | nil => rfl
  | @done act as c c' res reply _ ih =>
      rw [List.forall_mem_cons] at setup
      refine ih setup.2 ?_
      have kept : ∀ g, act ≠ .delete g := by
        rintro g rfl
        cases setup.1
      exact (Recorder.isSome_node?_act kept).trans live
  | failed reply =>
      cases reply.symm.trans (obeyed (setup _ List.mem_cons_self) live)

/-- If nodes of a type can be created, a new leaf owns the next handle and its node has the settings and the name. -/
theorem createLeaf_presents (recording : E.renderer = Recorder.renderer) {type : NodeType}
    (granted : type ∉ c.system.failing) (role : Role) {settings : List (InputKey × Bound)}
    (plain : ∀ key g, (key, .node g) ∉ settings) (name : String) :
    ∃ c', createLeaf type role settings (some name) E c = .ok (.ok ⟨.owned ⟨c.system.created⟩, role⟩, c') ∧
      Presents c.assembly ⟨c.system.created⟩ { ({ type := type } : RecordedNode).dressed settings with name := some name }
        c' := by
  have created : (Recorder.create type c.system).1 = .ok ⟨c.system.created⟩ := by
    rw [Recorder.create, if_neg (by simpa using granted)]
  obtain ⟨res, c', call, creation⟩ := (total_createLeaf type role settings (some name)).exists
    (after_createLeaf (E := E) (c := c))
  rw [recording] at creation
  have assembly := creation.assembly
  have live {h : Handle} (reply : (Recorder.create type c.system).1 = .ok h) :
      ((c.created Recorder.renderer type).system.node? h).isSome := by
    have new := Recorder.node?_create (g := h) reply
    rw [if_pos rfl] at new
    exact Option.isSome_iff_exists.2 ⟨_, new⟩
  cases creation with
  | refused reply => cases reply.symm.trans created
  | undone reply setup => cases setup.granted (fun _ => isSetting_of_mem) plain (live reply)
  | done reply setup =>
      obtain ⟨own, node⟩ := CreatesLeaf.dresses (.done reply setup)
      rw [own] at call
      exact ⟨c', call, assembly, node⟩

/-- A node of an entry of the mapping table is built by the entry. -/
theorem recipe_of_entry (general : n.category ∉ bespoke) (entry : Mapping.entryFor? n.category n.type = some m) :
    Recipe.of n = .ok (.create m.type (.mapped m) m.opcodeSetting) := by
  unfold Recipe.of
  split
  case h_8 =>
    rw [entry]
    rfl
  all_goals
    next category =>
    rw [category] at general
    exact absurd (by decide) general

/-- The part for a node of an entry is a leaf with a new node. -/
theorem buildNode_presents (recording : E.renderer = Recorder.renderer) (general : n.category ∉ bespoke)
    (entry : Mapping.entryFor? n.category n.type = some m) (granted : m.type ∉ c.system.failing) :
    ∃ c', buildNode sub n E c = .ok (.ok c.assembly.size, c') ∧
      Presents (c.assembly.apply (.add (.leaf ⟨.owned ⟨c.system.created⟩, .mapped m⟩))) ⟨c.system.created⟩
        { ({ type := m.type } : RecordedNode).dressed m.opcodeSetting with name := some n.name } c' := by
  have plain (key : InputKey) (g : Handle) : (key, .node g) ∉ m.opcodeSetting := by
    intro mem
    obtain ⟨-, o, -, other⟩ := Mapping.mem_opcodeSetting.1 mem
    cases other
  obtain ⟨c₁, call, assembly, node⟩ := createLeaf_presents recording granted (.mapped m) plain n.name
  refine ⟨c₁.edit (.add (.leaf ⟨.owned ⟨c.system.created⟩, .mapped m⟩)), ?_, ?_, node⟩
  · rw [buildNode, recipe_of_entry general entry]
    dsimp only
    rw [andThen, bind_apply _ call, ← assembly]
    rfl
  · rw [Context.edit_assembly, assembly]

/-- The child for a node of an entry for which at most literals are given. -/
theorem buildChild_presents (recording : E.renderer = Recorder.renderer) {k : Composite}
    (composite : c.assembly.composite? id = some k) (absent : k.child? n.name = none) (general : n.category ∉ bespoke)
    (entry : Mapping.entryFor? n.category n.type = some m) (granted : m.type ∉ c.system.failing) {nd : NodeDef}
    (definition : E.catalog.nodeDefOf? n = some nd) (alone : ∀ i ∈ nd.inputs, (n.elementFor i).IsUnconnected) :
    ∃ c', buildChild sub id n E c = .ok ((some c.assembly.size, []), c') ∧
      Presents ((c.assembly.apply (.add (.leaf ⟨.owned ⟨c.system.created⟩, .mapped m⟩))).apply
          (.child id n.name c.assembly.size)) ⟨c.system.created⟩
        { ({ type := m.type } : RecordedNode).dressed (m.opcodeSetting ++ m.literals n nd) with name := some n.name }
        c' := by
  have remarked : remark (.node n.name n.category) E c =
      .ok ((), c.push (.remarked E.margin (.node n.name n.category))) := rfl
  obtain ⟨c₁, built, assembly, node⟩ := buildNode_presents sub (E := E.at (E.place.enter .node n.filePrefix))
    (c := c.push (.remarked E.margin (.node n.name n.category))) recording general entry granted
  rw [Context.push_assembly] at built assembly
  have noted : edit (.child id n.name c.assembly.size) (E.at (E.place.enter .node n.filePrefix)) c₁ =
      .ok ((), c₁.edit (.child id n.name c.assembly.size)) := rfl
  have there : (c₁.edit (.child id n.name c.assembly.size)).assembly.composite? id =
      some { k with children := k.children.insert n.name c.assembly.size } := by
    rw [Context.edit_assembly, assembly, composite?_child, if_pos rfl, composite?_add_leaf]
    exact congrArg (Option.map _) composite
  have leaf : (c₁.edit (.child id n.name c.assembly.size)).assembly.leaf? c.assembly.size =
      some ⟨.owned ⟨c.system.created⟩, .mapped m⟩ := by
    rw [Context.edit_assembly, assembly, leaf?_child, leaf?_add_leaf]
    exact if_pos rfl
  obtain ⟨c₂, resolved, bound⟩ := resolveInputs_presents sub (E := E.at (E.place.enter .node n.filePrefix))
    recording (c := c₁.edit (.child id n.name c.assembly.size)) ⟨rfl, node⟩ (by rw [there]; rfl) leaf definition alone
  refine ⟨c₂, ?_, ?_⟩
  · rw [buildChild, bind_apply _ assembly_apply, composite, Option.bind_some, absent]
    dsimp only
    rw [bind_apply _ remarked]
    change (buildNode sub n >>= _) (E.at _) _ = _
    rw [bind_apply _ built]
    dsimp only
    rw [bind_apply _ noted, bind_apply _ resolved]
    rfl
  · rw [Context.edit_assembly, assembly, RecordedNode.dressed_named, ← RecordedNode.dressed_append] at bound
    exact bound

/-- All that is bound to the node of a child whose inputs are given literals at most. If a node has an entry in the
mapping table and no part of its own, if the inputs of its definition have different names and refer to nothing else,
and if nodes of the type of the entry can be created, then the child is built, owns a node of the type and the name,
and to this node is bound: the opcode of the entry, and for each declared input that the entry knows the floats that
its literal stands for, if it is there and is numeric. -/
theorem buildChild_binds_literals (recording : E.renderer = Recorder.renderer) {k : Composite}
    (composite : c.assembly.composite? id = some k) (absent : k.child? n.name = none) (general : n.category ∉ bespoke)
    (entry : Mapping.entryFor? n.category n.type = some m) (granted : m.type ∉ c.system.failing) {d : NodeDef}
    (definition : E.catalog.nodeDefOf? n = some d) (distinct : (d.inputs.map Input.name).Nodup)
    (alone : ∀ i ∈ d.inputs, (n.elementFor i).IsUnconnected) :
    ∃ x h c' r, buildChild sub id n E c = .ok ((some x, []), c') ∧ c'.assembly.child? id n.name = some x ∧
      c'.assembly.leaf? x = some ⟨.owned h, .mapped m⟩ ∧ h = ⟨c.system.created⟩ ∧ c'.system.node? h = some r ∧
      r.type = m.type ∧ r.name = some n.name ∧
      ∀ key v, r.bound key = some v ↔
        (key = .op ∧ ∃ o, m.opcode = some o ∧ v = .word o.id) ∨
        ∃ i ∈ d.inputs, m.key? i.name = some key ∧
          ∃ text y, (n.elementFor i).value? = some text ∧ Literal.floats? text (n.elementFor i).type = some y ∧
            v = .floats y := by
  obtain ⟨c', call, assembly, node⟩ :=
    buildChild_presents sub recording composite absent general entry granted definition alone
  refine ⟨_, _, c', _, call, ?_, ?_, rfl, node, ?_, rfl, ?_⟩
  · rw [assembly]
    exact child?_child_self ((composite?_add_leaf _).trans composite) n.name _
  · rw [assembly, leaf?_child, leaf?_add_leaf, if_pos rfl]
  · exact RecordedNode.type_dressed _ _
  · intro key v
    refine (RecordedNode.bound_dressed_iff rfl (Mapping.nodup_settings general entry distinct)).trans ?_
    rw [List.mem_append, Mapping.mem_opcodeSetting, Mapping.literals, List.mem_flatMap]
    refine or_congr Iff.rfl (exists_congr fun i => and_congr Iff.rfl ?_)
    rw [Mapping.mem_setting, Input.floats?]
    simp only [Option.bind_eq_some_iff]
    constructor
    · rintro ⟨known, y, ⟨text, given, floats⟩, rfl⟩
      exact ⟨known, text, y, given, floats, rfl⟩
    · rintro ⟨known, text, y, given, floats, rfl⟩
      exact ⟨known, y, ⟨text, given, floats⟩, rfl⟩

def clampNode : Node where
  name := "a"
  category := "clamp"
  type := "float"
  inputs := [{ name := "in", type := "float", value := some "0.5" }]

/-- The definition of the node: one input is overridden, one has a literal that is no number, and one is unknown to the
renderer. -/
def clampDef : NodeDef where
  name := "ND_clamp"
  node := "clamp"
  type := "float"
  inputs := [{ name := "low", type := "float", value := some "none" }, { name := "in", type := "float", value := some "1" },
    { name := "high", type := "float", value := some "2" }]

def clamping : Document where
  nodeDefs := [clampDef]
  nodes := [clampNode]

/-- Only the opcode and the overriding literal are bound. -/
theorem buildChild_binds_literals_clamp :
    ∃ x c' r, buildChild part 0 clampNode (Loader.env {} clamping {} (fun _ => false) Recorder.renderer)
        { system := {}, assembly := Assembly.apply {} (.add (.composite { graph := .document clamping })) } =
          .ok ((some x, []), c') ∧
      c'.system.node? ⟨0⟩ = some r ∧ r.bound .op = some (.word Opcode.max.id) ∧
      r.bound .color0 = some (.floats (Literal.broadcast .half)) ∧ r.bound .color1 = none := by
  have absent : ({ graph := .document clamping } : Composite).child? clampNode.name = none := by decide
  have composite : (Assembly.apply {} (.add (.composite { graph := .document clamping }))).composite? 0 =
      some { graph := .document clamping } := rfl
  obtain ⟨x, h, c', r, call, -, -, rfl, node, -, -, bound⟩ :=
    buildChild_binds_literals part (E := Loader.env {} clamping {} (fun _ => false) Recorder.renderer)
      (c := { system := {}, assembly := Assembly.apply {} (.add (.composite { graph := .document clamping })) })
      (n := clampNode) (m := Mapping.arithmetic .max [("in", .color0), ("low", .color1)]) (d := clampDef) rfl
      composite absent (by decide) (by decide +kernel) (by decide) (by decide +kernel) (by decide) (by decide)
  have half : Literal.floats? "0.5" "float" = some (Literal.broadcast .half) := by decide +kernel
  refine ⟨x, c', r, call, node, (bound _ _).2 (.inl ⟨rfl, .max, rfl, rfl⟩), (bound _ _).2 (.inr ?_), ?_⟩
  · exact ⟨{ name := "in", type := "float", value := some "1" }, by decide, by decide, "0.5", _, by decide, half, rfl⟩
  · refine Option.eq_none_iff_forall_ne_some.2 fun v there => ?_
    rcases (bound _ _).1 there with ⟨other, -⟩ | ⟨i, mem, known, text, y, given, floats, -⟩
    · cases other
    · have low : i = { name := "low", type := "float", value := some "none" } := by
        have all : ∀ i ∈ clampDef.inputs,
            (Mapping.arithmetic .max [("in", .color0), ("low", .color1)]).key? i.name = some .color1 →
              i = { name := "low", type := "float", value := some "none" } := by decide
        exact all i mem known
      subst low
      have text : text = "none" := by
        have own : (clampNode.elementFor { name := "low", type := "float", value := some "none" }).value? =
          some "none" := by decide
        exact (Option.some.inj (own.symm.trans given)).symm
      subst text
      have unread : Literal.floats? "none" "float" = none := by decide +kernel
      cases unread.symm.trans floats

end Build

end MaterialGraph
