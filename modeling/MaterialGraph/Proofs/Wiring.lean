import MaterialGraph.Proofs.Roots

/-!
# Roots and wiring

Two ways lead from an output to the leaf behind it. A connection goes down through any number of graphs, and the type
of the node says how the first output is chosen. The search for a root looks into one graph at most, and the type of
that graph says how its output is chosen.

* `Wires` : how a consumer in the same graph would be connected.
* `IsNear` : the leaf is the child itself, or a child of it.
* `root_of_wired` : if both types say the same, the search finds the leaf of the connection just if it is near.
-/

namespace MaterialGraph

set_option autoImplicit false

open Assembly

variable {σ : Type} {E : Env σ} {c : Context σ} {id u : PartId} {n : Node} {k : Composite} {output : Option String}
  {h : Handle}

namespace Build

/-! ## Children that are there -/

/-- The context after a child has been asked for that was there. -/
def asked (id : PartId) (name : String) (c : Context σ) : Context σ :=
  (c.edit (.began (.child id name))).edit (.ended (.child id name) true)

@[simp] theorem asked_assembly (id : PartId) (name : String) : (asked id name c).assembly = c.assembly := rfl

theorem childPart_of_child {name : String} {x : PartId} (there : c.assembly.child? id name = some x) (fuel : Nat) :
    childPart (fuel + 1) id name E c = .ok (some x, asked id name c) := by
  obtain ⟨k, composite, child⟩ := Option.bind_eq_some_iff.1 there
  rw [childPart, childPartWith]
  refine asTask_apply ?_
  have begun : (c.edit (.began (.child id name))).assembly.composite? id = some k := composite
  rw [bind_apply _ assembly_apply, begun]
  dsimp only
  rw [child]
  rfl

/-- A child that is there is given, whatever it takes to build one. -/
theorem part_of_child {name : String} {x : PartId} (there : c.assembly.child? id name = some x) :
    part id name E c = .ok (some x, asked id name c) := by
  obtain ⟨fuel, enough⟩ : ∃ fuel, depthBound E.catalog = fuel + 1 :=
    Nat.exists_eq_succ_of_ne_zero (Nat.ne_of_gt (Nat.lt_of_lt_of_le (by decide : 0 < grantedDepth) (Nat.le_max_left _ _)))
  have read : (catalog : Build σ Catalog) E c = .ok (E.catalog, c) := rfl
  rw [part, bind_apply _ read, enough, childPart_of_child there]

/-! ## Wiring -/

/-- A consumer that names a node of the same graph and asks for an output is connected to a node of the renderer: the
node has been built, the output is chosen, and the renderer node stands behind it. -/
structure Wires (cat : Catalog) (a : Assembly) (k : Composite) (name : String) (n : Node) (u : PartId)
    (requested output : Option String) (h : Handle) : Prop where
  node : k.graph.node? name = some n
  child : k.child? name = some u
  chosen : ∃ consumer, chooseOutput n.type (((cat.nodeDefOf? n).map NodeDef.outputs).getD []) requested consumer =
    .ok output
  handle : ∃ fuel, a.outputHandle? fuel u output = some (.ok h)

/-- The type of a node and that of its graph lead to the same choice of an output: the node has several outputs, or
the graph has not, or the first is asked for by its name. -/
def Agrees (n : Node) (g : Graph) (requested : Option String) : Prop :=
  n.type = multiOutput ∨ g.type ≠ multiOutput ∨ ∃ o ∈ g.outputs.head?, nonEmpty requested = some o.name

/-- A part is a leaf, or a composite with a leaf for a child behind an output. -/
def IsNear (a : Assembly) (u : PartId) (output : Option String) : Prop :=
  (a.leaf? u).isSome ∨ ∃ k x next, a.composite? u = some k ∧ behind k output = .ok (x, next) ∧ (a.leaf? x).isSome

/-- The output of a composite that a choice means. -/
def meant (g : Graph) : Option String → Option Output
  | some name => g.output? name
  | none => g.outputs.head?

theorem behind_eq_meant (k : Composite) (output : Option String) :
    behind k output = match meant k.graph output with
      | none => .error (.malformed (k.graph.name ++ " has no output " ++ output.getD ""))
      | some o =>
        match o.nodeName?.bind k.child? with
        | none => .error (.malformed ("output " ++ o.name ++ " of " ++ k.graph.name ++ " is not built"))
        | some child => .ok (child, o.output?) :=
  rfl

theorem behind_eq_ok {x : PartId} {next : Option String} (found : behind k output = .ok (x, next)) :
    ∃ o name, meant k.graph output = some o ∧ o.nodeName? = some name ∧ k.child? name = some x := by
  rw [behind_eq_meant] at found
  split at found
  · cases found
  · next o chosen =>
    split at found
    · cases found
    · next child there =>
      cases found
      obtain ⟨name, named, child⟩ := Option.bind_eq_some_iff.1 there
      exact ⟨o, name, chosen, named, child⟩

theorem chooseOutput_of_ne {type : String} (other : type ≠ multiOutput) (outputs : List Output)
    (requested : Option String) (consumer : String) : chooseOutput type outputs requested consumer = .ok none :=
  if_pos other

theorem chooseOutput_of_mem {outputs : List Output} {o : Output} (mem : o ∈ outputs) {requested : Option String}
    (named : nonEmpty requested = some o.name) (consumer : String) :
    chooseOutput multiOutput outputs requested consumer = .ok (some o.name) := by
  have known : (outputs.any fun x => x.name = o.name) = true := List.any_eq_true.2 ⟨o, mem, decide_eq_true rfl⟩
  rw [chooseOutput, if_neg (not_not_intro rfl), named]
  exact if_pos known

theorem requested_of_chosen {outputs : List Output} {requested : Option String} {consumer : String}
    (chosen : chooseOutput multiOutput outputs requested consumer = .ok output) :
    ∃ name, nonEmpty requested = some name ∧ output = some name := by
  rw [chooseOutput, if_neg (not_not_intro rfl)] at chosen
  split at chosen
  · cases chosen
  · next name named =>
    split at chosen
    · cases chosen
      exact ⟨name, named, rfl⟩
    · cases chosen

/-- A graph that has not several outputs has only the one that is found in it. -/
theorem head?_of_type_ne {g : Graph} (other : g.type ≠ multiOutput) {name : String} {o : Output}
    (found : g.output? name = some o) : g.outputs.head? = some o := by
  have mem := List.mem_of_find?_eq_some found
  rw [Graph.type] at other
  split at other
  · next none =>
    rw [none] at mem
    cases mem
  · next only =>
    rw [only] at mem ⊢
    rw [List.mem_singleton.1 mem]
    rfl
  · exact absurd rfl other

/-- If both types lead to the same choice, what a connection means is what is looked for. -/
theorem Agrees.chosen {g : Graph} {requested : Option String} (agrees : Agrees n g requested) {outputs : List Output}
    {consumer : String} (chosen : chooseOutput n.type outputs requested consumer = .ok output) {o : Output}
    (found : meant g output = some o) (port : String) :
    ∃ output', chooseOutput g.type g.outputs requested port = .ok output' ∧ meant g output' = some o := by
  by_cases several : n.type = multiOutput
  · rw [several] at chosen
    obtain ⟨name, named, rfl⟩ := requested_of_chosen chosen
    by_cases other : g.type = multiOutput
    · have same := List.find?_some found
      rw [decide_eq_true_eq] at same
      rw [← same] at named
      refine ⟨some o.name, ?_, ?_⟩
      · rw [other]
        exact chooseOutput_of_mem (List.mem_of_find?_eq_some found) named port
      · rw [same]
        exact found
    · exact ⟨none, chooseOutput_of_ne other _ _ _, head?_of_type_ne other found⟩
  · rw [chooseOutput_of_ne several] at chosen
    cases chosen
    rcases agrees with multi | other | ⟨first, head, named⟩
    · exact absurd multi several
    · exact ⟨none, chooseOutput_of_ne other _ _ _, found⟩
    · by_cases other : g.type = multiOutput
      · cases (show some first = some o from head.symm.trans found)
        obtain ⟨rest, all⟩ := List.head?_eq_some_iff.1 found
        refine ⟨some o.name, ?_, ?_⟩
        · rw [other]
          exact chooseOutput_of_mem (List.mem_of_head? found) named port
        · change List.find? _ g.outputs = _
          rw [all]
          exact List.find?_cons_of_pos (decide_eq_true rfl)
      · exact ⟨none, chooseOutput_of_ne other _ _ _, found⟩

/-! ## Finding the leaf -/

theorem innerPart_meant {g : Graph} {o : Output} {output : Option String}
    (chosen : chooseOutput g.type g.outputs o.output? o.name = .ok output) (child : PartId) :
    (innerPart child g o : Build σ (Option PartId)) = match (meant g output).bind Output.nodeName? with
      | none => return none
      | some name => do
        match ← part child name with
        | none => return none
        | some found => return if ((← assembly).leaf? found).isSome then some found else none := by
  rw [innerPart, chosen]
  rfl

/-- What the search for a leaf finds behind an output of a composite. -/
theorem innerPart_apply {child x : PartId} {g : Graph} {o o' : Output} {name : String}
    (chosen : ∃ output, chooseOutput g.type g.outputs o.output? o.name = .ok output ∧ meant g output = some o')
    (named : o'.nodeName? = some name) (there : c.assembly.child? child name = some x) :
    innerPart child g o E c =
      .ok (if (c.assembly.leaf? x).isSome then some x else none, asked child name c) := by
  obtain ⟨output, chosen, found⟩ := chosen
  rw [innerPart_meant chosen, found, Option.bind_some, named]
  dsimp only
  rw [bind_apply _ (part_of_child there)]
  rfl

theorem holds_of_leaf {a : Assembly} {l : Leaf} (leaf : a.leaf? u = some l) {fuel : Nat}
    (handle : a.outputHandle? fuel u output = some (.ok h)) : Holds a u h := by
  cases fuel with
  | zero => cases handle
  | succ fuel =>
      rw [outputHandle?, leaf?_eq_some.1 leaf] at handle
      rw [Holds, leaf]
      have held : leafHandle l = .ok h := Option.some.inj handle
      unfold leafHandle at held
      split at held
      · next held' =>
        cases held
        exact held'
      · cases held

/-- Behind an output of a composite through which a connection goes stands a child, through which it goes on. -/
theorem behind_of_handle {a : Assembly} (composite : a.composite? u = some k) {fuel : Nat}
    (handle : a.outputHandle? fuel u output = some (.ok h)) :
    ∃ x next fuel, behind k output = .ok (x, next) ∧ a.outputHandle? fuel x next = some (.ok h) := by
  cases fuel with
  | zero => cases handle
  | succ fuel =>
      rw [outputHandle?, composite?_eq_some.1 composite] at handle
      dsimp only at handle
      split at handle
      · cases handle
      · next x next found => exact ⟨x, next, fuel, found, handle⟩

/-- The search for a leaf ends with that of a connection, if it is near, or else with none. -/
def Settles (c : Context σ) (u : PartId) (output : Option String) (h : Handle) (found : Option PartId)
    (c' : Context σ) : Prop :=
  c'.assembly = c.assembly ∧ (found.isSome ↔ IsNear c.assembly u output) ∧ ∀ x, found = some x → Holds c.assembly x h

theorem Wires.outputLeaf {kid : Composite} {name : String} {o : Output}
    (wires : Wires E.catalog c.assembly kid name n u o.output? output h)
    (composite : c.assembly.composite? id = some kid) (producer : o.nodeName? = some name)
    (agrees : ∀ k, c.assembly.composite? u = some k → Agrees n k.graph o.output?) :
    ∃ found c', outputLeaf id o E c = .ok (found, c') ∧ Settles c u output h found c' := by
  obtain ⟨fuel, handle⟩ := wires.handle
  have child : (c.assembly.composite? id).bind (fun k => o.nodeName?.bind k.child?) = some u := by
    rw [composite, Option.bind_some, producer, Option.bind_some, wires.child]
  rw [Build.outputLeaf, bind_apply _ assembly_apply, child]
  dsimp only
  cases part : c.assembly.part? u with
  | none =>
      cases fuel with
      | zero => cases handle
      | succ fuel =>
          rw [outputHandle?, part] at handle
          cases handle
  | some p =>
      cases p with
      | leaf l =>
          have leaf : c.assembly.leaf? u = some l := leaf?_eq_some.2 part
          refine ⟨some u, c, rfl, rfl, ⟨fun _ => .inl (by rw [leaf]; rfl), fun _ => rfl⟩, ?_⟩
          rintro x ⟨⟩
          exact holds_of_leaf leaf handle
      | composite k =>
          have inner : c.assembly.composite? u = some k := composite?_eq_some.2 part
          obtain ⟨x, next, fuel, found, handle⟩ := behind_of_handle inner handle
          obtain ⟨o', name', meant, named, there⟩ := behind_eq_ok found
          obtain ⟨consumer, chosen⟩ := wires.chosen
          have search := innerPart_apply (E := E) ((agrees k inner).chosen chosen meant o.name) named
            ((child?_of_composite? inner name').trans there)
          have near : IsNear c.assembly u output ↔ (c.assembly.leaf? x).isSome := by
            constructor
            · rintro (leaf | ⟨k', x', next', composite', found', leaf⟩)
              · rw [Assembly.leaf?, part] at leaf
                cases leaf
              · cases inner.symm.trans composite'
                cases found.symm.trans found'
                exact leaf
            · exact fun leaf => .inr ⟨k, x, next, inner, found, leaf⟩
          refine ⟨_, _, search, rfl, ?_, ?_⟩
          · rw [near]
            split <;> simp_all
          · intro y hy
            split at hy
            · next leaf =>
              cases hy
              obtain ⟨l, leaf⟩ := Option.isSome_iff_exists.1 leaf
              exact holds_of_leaf leaf handle
            · cases hy

/-- Once a leaf with a node is found, it is the root, or else what is made of it to stand for a surface. -/
theorem rootOf_of_leaf {o : Output} {x : PartId} {c' : Context σ} (search : outputLeaf id o E c = .ok (some x, c'))
    (holds : Holds c'.assembly x h) (g : Group) (kind : OutputKind) :
    (¬ (kind = .surface ∧ o.type ≠ "surfaceshader") → rootOf g id kind o E c = .ok ((some x, []), c')) ∧
      ∀ y c₂, kind = .surface ∧ o.type ≠ "surfaceshader" → wrapSurface h o.type E c' = .ok (.ok y, c₂) →
        rootOf g id kind o E c = .ok ((some y, [y]), c₂) := by
  have held : (c'.assembly.leaf? x).bind (fun l => l.hold.handle?) = some h := holds
  rw [rootOf, bind_apply _ search]
  dsimp only
  rw [bind_apply _ assembly_apply, held]
  dsimp only
  constructor
  · intro plain
    rw [if_neg plain, pure_apply]
  · intro y c₂ wrapped made
    rw [if_pos wrapped, bind_apply _ made]
    rfl

end Build

open Build

/-- If a consumer in the same graph would be connected to a node, and the types of the producer and of its graph lead
to the same choice of an output, then the search for the leaf behind the output returns and changes nothing. It looks
into one graph at most: it finds a leaf just if there is one so near, and that leaf holds the node of the connection.
The leaf is the root of the kind, or what is made of it to stand for a surface is. -/
theorem root_of_wired {k : Composite} {name : String} {o : Output}
    (composite : c.assembly.composite? id = some k) (producer : o.nodeName? = some name)
    (wires : Wires E.catalog c.assembly k name n u o.output? output h)
    (agrees : ∀ inner, c.assembly.composite? u = some inner → Agrees n inner.graph o.output?) :
    ∃ found c', outputLeaf id o E c = .ok (found, c') ∧ c'.assembly = c.assembly ∧
      (found.isSome ↔ IsNear c.assembly u output) ∧
      ∀ x, found = some x → Holds c.assembly x h ∧ ∀ (g : Group) (kind : OutputKind),
        (¬ (kind = .surface ∧ o.type ≠ "surfaceshader") → rootOf g id kind o E c = .ok ((some x, []), c')) ∧
        ∀ y c₂, kind = .surface ∧ o.type ≠ "surfaceshader" → wrapSurface h o.type E c' = .ok (.ok y, c₂) →
          rootOf g id kind o E c = .ok ((some y, [y]), c₂) := by
  obtain ⟨found, c', search, same, near, holds⟩ := wires.outputLeaf composite producer agrees
  refine ⟨found, c', search, same, near, ?_⟩
  rintro x rfl
  have held : Holds c'.assembly x h := by
    rw [same]
    exact holds x rfl
  exact ⟨holds x rfl, fun g kind => rootOf_of_leaf search held g kind⟩

/-- A node `x` of a category is the only one at the top level. An `outer` stands for an `inner`, which stands for an
`add`; a `pair` has two outputs, although it has the type of the first. -/
def nested (category : String) : Document where
  nodeDefs := [
    { name := "ND_add", node := "add", type := "float" },
    { name := "ND_inner", node := "inner", type := "float", nodeGraph := some "NG_inner" },
    { name := "ND_outer", node := "outer", type := "float", nodeGraph := some "NG_outer" },
    { name := "ND_pair", node := "pair", type := "float", nodeGraph := some "NG_pair" }]
  nodeGraphs := [
    { name := "NG_inner", nodeDef := some "ND_inner"
      nodes := [{ name := "a", category := "add", type := "float" }]
      outputs := [{ name := "out", type := "float", nodeName := some "a" }] },
    { name := "NG_outer", nodeDef := some "ND_outer"
      nodes := [{ name := "b", category := "inner", type := "float" }]
      outputs := [{ name := "out", type := "float", nodeName := some "b" }] },
    { name := "NG_pair", nodeDef := some "ND_pair"
      nodes := [{ name := "a", category := "add", type := "float" }]
      outputs := [
        { name := "out", type := "float", nodeName := some "a" },
        { name := "other", type := "float", nodeName := some "a" }] }]
  nodes := [{ name := "x", category := category, type := "float" }]
  outputs := [{ name := "o", type := "float", nodeName := some "x" }]

namespace nested

def node (category : String) : Node := { name := "x", category := category, type := "float" }

def exposed : Output := { name := "o", type := "float", nodeName := some "x" }

def env (category : String) : Env Recorder := ({} : Loader).env (nested category) {} (fun _ => false) Recorder.renderer

def built (category : String) : Option (Harvest × Context Recorder) :=
  (Loader.builds {} (nested category) {} (fun _ => false) Recorder.renderer {}
    (Loader.groups {} (nested category) {})).toOption

/-- What is to be seen at the node. -/
structure View where
  graph : Option Graph
  child : Option PartId
  type : Option String
  handle : Option Handle
  isLeaf : Option Bool
  isFound : Option Bool
deriving DecidableEq

def view (category : String) (c : Context Recorder) : View where
  graph := (c.assembly.composite? 0).map (·.graph)
  child := c.assembly.child? 0 "x"
  type := (c.assembly.composite? 1).map (·.graph.type)
  handle := (c.assembly.outputHandle? 9 1 none).bind Except.toOption
  isLeaf := (c.assembly.composite? 1).bind fun k =>
    (behind k none).toOption.map fun p => (c.assembly.leaf? p.1).isSome
  isFound := (outputLeaf 0 exposed (env category) c).toOption.map (·.1.isSome)

/-- A consumer of the node would be connected to the node of the `add`. -/
theorem wires {category : String} {c : Context Recorder}
    (graph : (view category c).graph = some (.document (nested category)))
    (child : (view category c).child = some 1) (handle : (view category c).handle = some ⟨0⟩) :
    ∃ k, c.assembly.composite? 0 = some k ∧
      Wires (env category).catalog c.assembly k "x" (node category) 1 exposed.output? none ⟨0⟩ := by
  obtain ⟨k, composite, graph⟩ := Option.map_eq_some_iff.1 graph
  obtain ⟨res, found, ok⟩ := Option.bind_eq_some_iff.1 handle
  refine ⟨k, composite, ?_, (child?_of_composite? composite "x").symm.trans child, ⟨"", rfl⟩, 9, ?_⟩
  · rw [graph]
    rfl
  · cases res with
    | error e => cases ok
    | ok g =>
        cases ok
        exact found

end nested

/-- With one graph between, the search finds the leaf of the connection. -/
theorem root_of_wired_nested :
    ∃ harvest c k x, nested.built "inner" = some (harvest, c) ∧ c.assembly.composite? 0 = some k ∧
      Wires (nested.env "inner").catalog c.assembly k "x" (nested.node "inner") 1 nested.exposed.output? none ⟨0⟩ ∧
      (∃ c', outputLeaf 0 nested.exposed (nested.env "inner") c = .ok (some x, c')) ∧ Holds c.assembly x ⟨0⟩ := by
  have evaluated : (nested.built "inner").map (fun p => nested.view "inner" p.2) =
      some ⟨some (.document (nested "inner")), some 1, some "float", some ⟨0⟩, some true, some true⟩ := by
    decide +kernel
  obtain ⟨⟨harvest, c⟩, built, seen⟩ := Option.map_eq_some_iff.1 evaluated
  obtain ⟨graph, child, type, handle, isLeaf, isFound⟩ := nested.View.mk.inj seen
  obtain ⟨k, composite, wires⟩ := nested.wires graph child handle
  obtain ⟨inner, there, float⟩ := Option.map_eq_some_iff.1 type
  obtain ⟨found, c', search, -, near, holds⟩ := root_of_wired composite rfl wires fun inner' there' => by
    cases there.symm.trans there'
    exact .inr (.inl (by rw [float]; decide))
  have isNear : IsNear c.assembly 1 none := by
    obtain ⟨k', composite', leaf⟩ := Option.bind_eq_some_iff.1 isLeaf
    obtain ⟨⟨x, next⟩, ok, leaf⟩ := Option.map_eq_some_iff.1 leaf
    refine .inr ⟨k', x, next, composite', ?_, leaf⟩
    revert ok
    cases behind k' none with
    | error e => nofun
    | ok p =>
        rintro ⟨⟩
        rfl
  obtain ⟨x, rfl⟩ := Option.isSome_iff_exists.1 (near.2 isNear)
  exact ⟨harvest, c, k, x, built, composite, wires, ⟨c', search⟩, (holds x rfl).1⟩

/-- A load hands over nothing, although a consumer of the node behind its only output would be connected. -/
def nested.Misses (category : String) : Prop :=
  ∃ o harvest c k, Loader.load {} (nested category) {} (fun _ => false) Recorder.renderer {} = some o ∧
    nested.built category = some (harvest, c) ∧ c.assembly.composite? 0 = some k ∧
    Wires (nested.env category).catalog c.assembly k "x" (nested.node category) 1 nested.exposed.output? none ⟨0⟩ ∧
    (∃ c', outputLeaf 0 nested.exposed (nested.env category) c = .ok (none, c')) ∧ o.result = {}

theorem nested.misses {category : String} {view : nested.View}
    (loaded : (Loader.load {} (nested category) {} (fun _ => false) Recorder.renderer {}).map (fun o => o.result) =
      some {})
    (evaluated : (nested.built category).map (fun p => nested.view category p.2) = some view)
    (graph : view.graph = some (.document (nested category))) (child : view.child = some 1)
    (handle : view.handle = some ⟨0⟩) (isFound : view.isFound = some false) : nested.Misses category := by
  obtain ⟨o, loaded, empty⟩ := Option.map_eq_some_iff.1 loaded
  obtain ⟨⟨harvest, c⟩, built, rfl⟩ := Option.map_eq_some_iff.1 evaluated
  obtain ⟨k, composite, wires⟩ := nested.wires graph child handle
  obtain ⟨found, c', search, none⟩ := exists_of_toOption isFound
  have none := Option.isNone_iff_eq_none.1 (Option.isSome_eq_false_iff.1 none)
  subst none
  exact ⟨o, harvest, c, k, loaded, built, composite, wires, ⟨c', search⟩, empty⟩

/-- With two graphs between, the search does not find the leaf of the connection; nor does it with one graph of several
outputs, if the node has the type of one. -/
theorem nested_unresolved : nested.Misses "outer" ∧ nested.Misses "pair" := by
  constructor
  · refine @nested.misses "outer"
      ⟨some (.document (nested "outer")), some 1, some "float", some ⟨0⟩, some false, some false⟩ ?_ ?_ rfl rfl rfl rfl
    · decide +kernel
    · decide +kernel
  · refine @nested.misses "pair"
      ⟨some (.document (nested "pair")), some 1, some "multioutput", some ⟨0⟩, some true, some false⟩ ?_ ?_ rfl rfl rfl rfl
    · decide +kernel
    · decide +kernel

end MaterialGraph
