import MaterialGraph.Build.Basic

/-!
# Binding inputs

* `createLeaf` creates a renderer node with its first settings; what cannot be set up is deleted again.
* `bindLeaf` binds a node or a literal to an input of a leaf, as the role of the leaf says.
* `bindPart` does so for any part. A composite passes the binding on to every socket of the input.
* `connect` binds the output of one part to an input of another, and `connectChildren` does so for two children of a
  composite unless a cycle would arise.
-/

namespace MaterialGraph.Build

open Number (Float4)

set_option autoImplicit false

variable {σ : Type}

/-! ## Leaves -/

def perform : List Action → Build σ (Except CallError Unit)
  | [] => return .ok ()
  | a :: as => do
    match ← act a with
    | .ok () => perform as
    | .error e => return .error e

/-- Creates a node, binds its settings and names it. A node that cannot be set up is deleted again. -/
def createLeaf (type : NodeType) (role : Role) (settings : List (InputKey × Bound)) (name : Option String) :
    Build σ (Result Leaf) := do
  match ← create type with
  | .error e => return .error (.native e)
  | .ok h =>
    let bindings := settings.map fun (key, value) => Action.bind h key value
    let naming := if (← read).renderer.hasNames then name.toList.map (Action.rename h) else []
    match ← perform (bindings ++ naming) with
    | .ok () => return .ok ⟨.owned h, role⟩
    | .error e =>
      let _ ← act (.delete h)
      return .error (.native e)

/-- Takes the node from a leaf, and deletes it if the leaf owns it. -/
def release (id : PartId) (l : Leaf) : Build σ Unit := do
  edit (.leaf id { l with hold := .nothing })
  match l.hold.owned? with
  | some h =>
    let _ ← act (.delete h)
  | none => return ()

def float4Of (value type : String) (textual : LoadError) : Result Float4 :=
  match Literal.parse value type with
  | .error e => .error e
  | .ok v =>
    match v.toFloat4 with
    | some x => .ok x
    | none => .error textual

def bindNative (h : Handle) (key : InputKey) (value : Bound) : Build σ (Result Unit) := do
  match ← act (.bind h key value) with
  | .ok () => return .ok ()
  | .error e => return .error (.native e)

def bindMapped (l : Leaf) (m : Mapping) (i : Input) (b : Binding) : Build σ (Result Unit) :=
  match m.key? i.name with
  | none => return .error (.unsupported ("unknown input: " ++ i.name))
  | some key =>
    match Assembly.leafHandle l with
    | .error e => return .error e
    | .ok h =>
      match b with
      | .node producer => bindNative h key (.node producer)
      | .literal value type =>
        match float4Of value type
            (.unsupported ("failed to parse " ++ value ++ " value: unsupported type - " ++ type)) with
        | .error e => return .error e
        | .ok x => bindNative h key (.floats x)

def setImage (id : PartId) (l : Leaf) (params : ImageParams) : Build σ (Result Unit) := do
  edit (.leaf id { l with role := .image params })
  return .ok ()

/-- Tells an image a literal: most are kept, some do not matter, and the rest is bound. -/
def setImageLiteral (id : PartId) (l : Leaf) (params : ImageParams) (i : Input) (value type : String) :
    Build σ (Result Unit) :=
  match type, i.name with
  | "string", "layer" => setImage id l { params with layer := value }
  | "string", "uaddressmode" => setImage id l { params with uMode := value }
  | "string", "vaddressmode" => setImage id l { params with vMode := value }
  | "string", "filtertype" | "string", "framerange" | "string", "frameendaction" => return .ok ()
  | "filename", "file" => do
    let file ← resolveFile value
    setImage id l { params with file }
  | "integer", "frameoffset" => return .ok ()
  | "string", name | "filename", name =>
    return .error (.unsupported ("invalid input for image node " ++ name ++ " (" ++ value ++ " " ++ type ++ ")"))
  | _, "default" =>
    match Literal.parse value type with
    | .error e => return .error e
    | .ok v => setImage id l { params with default := some v }
  | _, _ => bindMapped l .image i (.literal value type)

/-- Puts a constant in the place of what a displacement stood for. -/
def setDisplacement (id : PartId) (l : Leaf) (name value type : String) : Build σ (Result Unit) := do
  release id l
  match float4Of value type (.unsupported ("displacement value of type " ++ type)) with
  | .error e => return .error e
  | .ok x =>
    match ← createLeaf .constantTexture .plain [(.value, .floats x)] (some name) with
    | .error e => return .error e
    | .ok constant =>
      edit (.leaf id { l with hold := constant.hold })
      return .ok ()

def bindLeaf (id : PartId) (l : Leaf) (i : Input) (b : Binding) : Build σ (Result Unit) :=
  match l.role, b with
  | .mapped m, b => bindMapped l m i b
  | .image _, .node producer => bindMapped l .image i (.node producer)
  | .image params, .literal value type => setImageLiteral id l params i value type
  | .surface, .node producer =>
    if i.name = "bsdf" then do
      edit (.leaf id { l with hold := .borrowed producer })
      return .ok ()
    else return .error (.unsupported ("surface input: " ++ i.name))
  | .surface, .literal _ _ => return .error (.unsupported ("surface input: " ++ i.name))
  | .displacement name, b =>
    if i.name = "displacement" then
      match b with
      | .node producer => do
        release id l
        edit (.leaf id { l with hold := .borrowed producer })
        return .ok ()
      | .literal value type => setDisplacement id l name value type
    else return .error (.unsupported ("displacement input: " ++ i.name))
  | .plain, _ | .wrap, _ => return .error (.unsupported ("node has no input " ++ i.name))

/-! ## Parts -/

/-- Does something for each item, even after errors, and returns the first error. -/
def forAll {α : Type} (f : α → Build σ (Result Unit)) : List α → Build σ (Result Unit)
  | [] => return .ok ()
  | a :: as => do
    let first ← f a
    let rest ← forAll f as
    match first with
    | .error e => return .error e
    | .ok () => return rest

/-- The children and inputs that some sockets lead to. -/
def targets (c : Composite) (sockets : List Socket) : List (PartId × Input) :=
  sockets.filterMap fun s => (c.child? s.child).map fun child => (child, s.input)

def bindPart : Nat → PartId → Input → Binding → Build σ (Result Unit)
  | 0, _, _, _ => outOfFuel
  | fuel + 1, id, i, b => do
    match (← assembly).part? id with
    | none => return .error (.malformed "dangling node id")
    | some (.leaf l) => bindLeaf id l i b
    | some (.composite c) =>
      match c.socketsFor? i with
      | none =>
        return .error (.unsupported
          ("failed to set " ++ i.name ++ " input for " ++ c.graph.name ++ ": no such interface socket"))
      | some sockets =>
        sockets.forM fun s => remark (.socket s.child s.input.name)
        forAll (fun (child, input) => bindPart fuel child input b) (targets c sockets)

/-- Fuel for a walk down from a part: it passes every part once at most. -/
def walkFuel : Build σ Nat := return (← assembly).size + 1

def bindInput (id : PartId) (i : Input) (b : Binding) : Build σ (Result Unit) := do
  bindPart (← walkFuel) id i b

def outputHandle (id : PartId) (output : Option String) : Build σ (Result Handle) := do
  ofOption ((← assembly).outputHandle? (← walkFuel) id output)

/-- Binds the output of one part to an input of another. -/
def connect (producer : PartId) (output : Option String) (consumer : PartId) (i : Input) : Build σ (Result Unit) :=
  asTask (.connection producer output consumer i) Except.isOk <|
    andThen (outputHandle producer output) fun h => bindInput consumer i (.node h)

/-- The composite in which a connection of children would close a cycle, if it would. -/
def closesCycle (id : PartId) (e : Edge) : Build σ (Option Composite) := do
  match (← assembly).composite? id with
  | some c => return if c.dependsOn e.producer e.consumer then some c else none
  | none => return none

/-- Connects two children of a composite, unless a cycle would arise, and notes the connection. -/
def connectChildren (id : PartId) (e : Edge) (producer : PartId) (output : Option String) (consumer : PartId)
    (i : Input) : Build σ (Result Unit) := do
  match ← closesCycle id e with
  | some c => return .error (.cycle (e.producer ++ " -> " ++ e.consumer ++ " in " ++ c.graph.name))
  | none =>
    andThen (connect producer output consumer i) fun () => do
      edit (.edge id e)
      return .ok ()

end MaterialGraph.Build
