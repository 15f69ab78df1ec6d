import MaterialGraph.Proofs.Build.Groups
import MaterialGraph.Proofs.Recorder
import MaterialGraph.Proofs.Replay
import MaterialGraph.Proofs.Traces

/-!
# What the node of a leaf is

The renderer node of a leaf has the name of the node in the document, a type that follows from its category, and
settings that no document can change, since no input of a leaf stands for a key of its settings.

* `Node.CallsFor` : the signature of a node, which is a type, the keys of inputs, and the settings.
* `callsFor_of_recipe` : a leaf is built by that signature.
* `RecordedNode.Bears` : a recorded node has a name and a signature.
* `Kept` : every leaf that is a child owns a node with the signature of its node, or none. One event after the other
  keeps it so, from `Kept.acted` and `Kept.setLeaf` up to `Run.keeps`.
* `load_keeps_signatures` : so it is at every moment of a load.
-/

namespace MaterialGraph

set_option autoImplicit false

open Build Assembly

/-! ## Signatures -/

/-- What is fixed of a renderer node. -/
structure Signature where
  type : NodeType
  keys : List InputKey
  settings : List (InputKey × Bound)

def bespoke : List String := ["surface", "displacement", "texcoord", "normal", "sqrt", "image", "swizzle"]

/-- The signature that a node calls for. -/
inductive Node.CallsFor (n : Node) : Signature → Prop
  | texcoord (category : n.category = "texcoord") : CallsFor n ⟨.inputLookup, [], [(.value, .word Lookup.uv.id)]⟩
  | normal (category : n.category = "normal") : CallsFor n ⟨.inputLookup, [], [(.value, .word Lookup.n.id)]⟩
  | sqrt (category : n.category = "sqrt") :
      CallsFor n ⟨.arithmetic, [.color0],
        [(.op, .word Opcode.pow.id), (.color1, .floats ⟨.half, .half, .half, .one⟩)]⟩
  | image (category : n.category = "image") : CallsFor n ⟨.imageTexture, [.uv], []⟩
  | displacement (category : n.category = "displacement") : CallsFor n ⟨.constantTexture, [.value], []⟩
  | swizzle {i : Input} {channel : String} {opcode : Opcode} (category : n.category = "swizzle")
      (channels : n.input? "channels" = some i) (type : i.type = "string") (value : i.value? = some channel)
      (component : channel = "x" ∧ opcode = .selectX ∨ channel = "y" ∧ opcode = .selectY) :
      CallsFor n ⟨.arithmetic, [.color0], [(.op, .word opcode.id)]⟩
  | entry {m : Mapping} (category : n.category ∉ bespoke) (entry : Mapping.entryFor? n.category n.type = some m) :
      CallsFor n ⟨m.type, m.inputs.map Prod.snd, m.opcode.toList.map fun opcode => (.op, .word opcode.id)⟩

theorem callsFor_of_swizzle {n : Node} {type : NodeType} {role : Role} {settings : List (InputKey × Bound)}
    (category : n.category = "swizzle") (h : Recipe.ofSwizzle n = .ok (.create type role settings)) :
    n.CallsFor ⟨type, inputKeys role, settings⟩ := by
  unfold Recipe.ofSwizzle at h
  have channels {channel : String}
      (hc : ((n.input? "channels").filter fun i => i.type = "string").bind Input.value? = some channel) :
      ∃ i, n.input? "channels" = some i ∧ i.type = "string" ∧ i.value? = some channel := by
    obtain ⟨i, hi, value⟩ := Option.bind_eq_some_iff.1 hc
    obtain ⟨there, type⟩ := Option.filter_eq_some_iff.1 hi
    exact ⟨i, there, of_decide_eq_true type, value⟩
  split at h
  · cases h
  · next hc =>
      cases h
      obtain ⟨i, there, type, value⟩ := channels hc
      exact .swizzle category there type value (.inl ⟨rfl, rfl⟩)
  · next hc =>
      cases h
      obtain ⟨i, there, type, value⟩ := channels hc
      exact .swizzle category there type value (.inr ⟨rfl, rfl⟩)
  · cases h

/-- A leaf with a node of its own is built by the signature that its node calls for. -/
theorem callsFor_of_recipe {n : Node} {type : NodeType} {role : Role} {settings : List (InputKey × Bound)}
    (h : Recipe.of n = .ok (.create type role settings)) : n.CallsFor ⟨type, inputKeys role, settings⟩ := by
  unfold Recipe.of at h
  split at h
  case h_1 | h_2 => cases h
  case h_3 category =>
    cases h
    exact .texcoord category
  case h_4 category =>
    cases h
    exact .normal category
  case h_5 category =>
    cases h
    exact .sqrt category
  case h_6 category =>
    cases h
    exact .image category
  case h_7 category => exact callsFor_of_swizzle category h
  case h_8 =>
    split at h
    · next m entry =>
      cases h
      refine .entry ?_ entry
      simp_all [bespoke]
    · cases h

theorem Recipe.of_surface {n : Node} (category : n.category = "surface") : Recipe.of n = .ok (.forward .surface) := by
  rw [Recipe.of, category]
  rfl

theorem Recipe.of_displacement {n : Node} (category : n.category = "displacement") :
    Recipe.of n = .ok (.forward (.displacement n.name)) := by
  rw [Recipe.of, category]
  rfl

/-- A leaf that forwards a node stands for a surface or for a displacement of the name of its node. -/
theorem forward_of_recipe {n : Node} {role : Role} (h : Recipe.of n = .ok (.forward role)) :
    role = .surface ∧ n.category = "surface" ∨ role = .displacement n.name ∧ n.category = "displacement" := by
  unfold Recipe.of at h
  split at h
  case h_1 category =>
    cases h
    exact .inl ⟨rfl, category⟩
  case h_2 category =>
    cases h
    exact .inr ⟨rfl, category⟩
  case h_7 =>
    unfold Recipe.ofSwizzle at h
    split at h
    all_goals cases h
  case h_8 =>
    split at h
    all_goals cases h
  all_goals cases h

/-- No entry of the mapping table lets an input stand for the opcode. -/
theorem op_notMem_inputs {category type : String} {m : Mapping} (entry : Mapping.entryFor? category type = some m) :
    InputKey.op ∉ m.inputs.map Prod.snd := by
  have all : ∀ e ∈ Mapping.table, InputKey.op ∉ e.2.inputs.map Prod.snd := by decide
  unfold Mapping.entryFor? at entry
  split at entry
  · cases entry
    decide
  · obtain ⟨before, after, table, -⟩ := List.lookup_eq_some_iff.1 entry
    exact all (category, m) (by rw [table]; simp)

/-- No input stands for a key of the settings. -/
theorem Node.CallsFor.apart {n : Node} {sig : Signature} (h : n.CallsFor sig) {key : InputKey} (mem : key ∈ sig.keys) :
    key ∉ sig.settings.map Prod.fst := by
  cases h with
  | texcoord | normal => cases mem
  | sqrt | swizzle =>
      cases List.mem_singleton.1 mem
      simp
  | image | displacement => exact List.not_mem_nil
  | @entry m category entry =>
      intro set
      obtain ⟨opcode, -, rfl⟩ : ∃ opcode ∈ m.opcode.toList, InputKey.op = key := by simpa using set
      exact op_notMem_inputs entry mem

/-- No key is set twice. -/
theorem Node.CallsFor.nodup {n : Node} {sig : Signature} (h : n.CallsFor sig) : (sig.settings.map Prod.fst).Nodup := by
  cases h with
  | sqrt => decide
  | image | displacement => exact List.nodup_nil
  | texcoord | normal | swizzle => exact List.nodup_singleton _
  | @entry m =>
      dsimp only
      cases m.opcode with
      | none => exact List.nodup_nil
      | some opcode => exact List.nodup_singleton _

/-- A node calls for one signature. -/
theorem Node.CallsFor.unique {n : Node} {sig sig' : Signature} (h : n.CallsFor sig) (h' : n.CallsFor sig') :
    sig = sig' := by
  cases h <;> cases h' <;> simp_all [bespoke]
  -- two swizzles have the same channel, which decides on the component
  all_goals grind

/-! ## Recorded nodes -/

namespace RecordedNode

theorem bound_bind (m : RecordedNode) (key k : InputKey) (value : Bound) :
    (m.bind key value).bound k = if k = key then some value else m.bound k := rfl

/-- A recorded node has a name and a signature: nothing is bound but under the keys of its inputs and of its settings,
and what is set stays so. -/
structure Bears (m : RecordedNode) (name : String) (sig : Signature) : Prop where
  name : m.name = some name
  type : m.type = sig.type
  only : ∀ {key}, (m.bound key).isSome → key ∈ sig.keys ∨ key ∈ sig.settings.map Prod.fst
  settings : ∀ {key value}, (key, value) ∈ sig.settings → m.bound key = some value

/-- What is bound under the key of an input leaves the settings. -/
theorem Bears.bind {m : RecordedNode} {name : String} {sig : Signature} {key : InputKey} (h : m.Bears name sig)
    (mem : key ∈ sig.keys) (apart : key ∉ sig.settings.map Prod.fst) (value : Bound) :
    (m.bind key value).Bears name sig where
  name := h.name
  type := h.type
  only {k} hk := by
    by_cases same : k = key
    · exact .inl (same ▸ mem)
    · refine h.only ?_
      rwa [bound_bind, if_neg same] at hk
  settings {k v} hk := by
    have other : k ≠ key := by
      rintro rfl
      exact apart (List.mem_map_of_mem hk)
    rw [bound_bind, if_neg other]
    exact h.settings hk

/-- A setting may stand for an input. -/
theorem Bears.loosen {m : RecordedNode} {name : String} {type : NodeType} {key : InputKey} {value : Bound}
    (h : m.Bears name ⟨type, [], [(key, value)]⟩) : m.Bears name ⟨type, [key], []⟩ where
  name := h.name
  type := h.type
  only hk := .inl ((h.only hk).resolve_left List.not_mem_nil)
  settings := nofun

def dressed (m : RecordedNode) (settings : List (InputKey × Bound)) : RecordedNode :=
  settings.foldl (fun m entry => m.bind entry.1 entry.2) m

theorem type_dressed (m : RecordedNode) (settings : List (InputKey × Bound)) : (m.dressed settings).type = m.type := by
  induction settings generalizing m with
  | nil => rfl
  | cons _ _ ih => exact ih _

/-- The name of a node does not matter to its settings. -/
theorem dressed_named (m : RecordedNode) (name : Option String) (settings : List (InputKey × Bound)) :
    ({ m with name } : RecordedNode).dressed settings = { m.dressed settings with name } := by
  induction settings generalizing m with
  | nil => rfl
  | cons entry settings ih => exact ih (m.bind entry.1 entry.2)

theorem bound_dressed_of_notMem {m : RecordedNode} {settings : List (InputKey × Bound)} {key : InputKey}
    (h : key ∉ settings.map Prod.fst) : (m.dressed settings).bound key = m.bound key := by
  induction settings generalizing m with
  | nil => rfl
  | cons entry settings ih =>
      rw [List.map_cons, List.mem_cons, not_or] at h
      refine (ih h.2).trans ?_
      rw [bound_bind, if_neg h.1]

theorem bound_dressed {m : RecordedNode} {settings : List (InputKey × Bound)} {key : InputKey} {value : Bound}
    (nodup : (settings.map Prod.fst).Nodup) (mem : (key, value) ∈ settings) :
    (m.dressed settings).bound key = some value := by
  induction settings generalizing m with
  | nil => cases mem
  | cons entry settings ih =>
      rw [List.map_cons, List.nodup_cons] at nodup
      rcases List.mem_cons.1 mem with rfl | mem
      · refine (bound_dressed_of_notMem nodup.1).trans ?_
        rw [bound_bind, if_pos rfl]
      · exact ih nodup.2 mem

end RecordedNode

namespace Recorder

variable {t : Recorder} {g h : Handle}

/-- An action leaves the nodes that it does not act on. -/
theorem node?_act_of_ne {a : Action} (reply : Except CallError Unit) (hg : (Event.acted a reply).target? ≠ some g) :
    (act a t).2.node? g = t.node? g := by
  have other {h : Handle} (ht : (Event.acted a reply).target? = some h) : g ≠ h := by
    rintro rfl
    exact hg ht
  cases a with
  | delete h => rw [node?_delete, if_neg (other rfl)]
  | rename h name => rw [act_rename, node?_modify, if_neg (other rfl)]
  | bind h key value =>
      rw [act_bind]
      split
      · rw [node?_modify, if_neg (other rfl)]
      · rfl

theorem node?_bind_ok {key : InputKey} {value : Bound} {m : RecordedNode} (reply : (act (.bind h key value) t).1 = .ok ())
    (hm : t.node? h = some m) : (act (.bind h key value) t).2.node? h = some (m.bind key value) := by
  rw [act_bind] at reply ⊢
  split at reply
  · next accepts => rw [if_pos accepts, node?_modify, if_pos rfl, hm, Option.map_some]
  · cases reply

/-- Setting up a node binds its settings. -/
theorem node?_performs {settings : List (InputKey × Bound)} {rest : List Action} {c c' : Context Recorder}
    {m : RecordedNode}
    (performs : Performs renderer (settings.map (fun entry => .bind h entry.1 entry.2) ++ rest) c (.ok ()) c')
    (hm : c.system.node? h = some m) :
    ∃ c₁, Performs renderer rest c₁ (.ok ()) c' ∧ c₁.system.node? h = some (m.dressed settings) := by
  induction settings generalizing c m with
  | nil => exact ⟨c, performs, hm⟩
  | cons entry settings ih =>
      cases performs with
      | done reply rest => exact ih rest (node?_bind_ok reply hm)

end Recorder

/-- A handle is that of a live node with a name and a signature. -/
def Recorder.Shows (t : Recorder) (h : Handle) (name : String) (sig : Signature) : Prop :=
  ∃ m, t.node? h = some m ∧ m.Bears name sig

namespace Build

variable {c c' : Context Recorder} {h : Handle}

/-- A new leaf owns the next handle, and its node has the settings and the name, if any. -/
theorem CreatesLeaf.dresses {type : NodeType} {role : Role} {settings : List (InputKey × Bound)} {name : Option String}
    {l : Leaf} (creation : CreatesLeaf Recorder.renderer type role settings name c (.ok l) c') :
    l = ⟨.owned ⟨c.system.created⟩, role⟩ ∧
      c'.system.node? ⟨c.system.created⟩ = some { ({ type := type } : RecordedNode).dressed settings with name } := by
  cases creation with
  | @done h _ reply setup =>
      have new : (c.created Recorder.renderer type).system.node? h = some { type := type } := by
        rw [Context.created_system]
        exact (Recorder.node?_create reply).trans (if_pos rfl)
      obtain ⟨c₁, naming, dressed⟩ := Recorder.node?_performs setup new
      obtain ⟨rfl, -⟩ := Recorder.create_ok reply
      refine ⟨rfl, ?_⟩
      cases name with
      | none =>
          cases naming
          rw [dressed]
          exact congrArg some (RecordedNode.dressed_named { type := type } none settings)
      | some name =>
          cases naming with
          | done reply rest =>
              cases rest
              rw [Context.acted_system]
              change (Recorder.act (.rename _ name) c₁.system).2.node? _ = _
              rw [Recorder.act_rename, Recorder.node?_modify, if_pos rfl, dressed, Option.map_some]

/-- The node of a new leaf bears the settings and the name, whatever keys its inputs have. -/
theorem CreatesLeaf.shows {type : NodeType} {role : Role} {settings : List (InputKey × Bound)} {name : String}
    {l : Leaf} (creation : CreatesLeaf Recorder.renderer type role settings (some name) c (.ok l) c')
    (nodup : (settings.map Prod.fst).Nodup) (keys : List InputKey) :
    ∃ h, l = ⟨.owned h, role⟩ ∧ c'.system.Shows h name ⟨type, keys, settings⟩ := by
  obtain ⟨own, node⟩ := creation.dresses
  refine ⟨_, own, _, node, rfl, RecordedNode.type_dressed _ settings, ?_, fun mem => RecordedNode.bound_dressed nodup mem⟩
  intro key hk
  by_cases mem : key ∈ settings.map Prod.fst
  · exact .inr mem
  · change ((({ type := type } : RecordedNode).dressed settings).bound key).isSome at hk
    rw [RecordedNode.bound_dressed_of_notMem mem] at hk
    cases hk

end Build

/-! ## What is kept -/

def Spare (a : Assembly) (h : Handle) : Prop := ∀ x l, a.leaf? x = some l → l.hold.owned? ≠ some h

/-- A leaf is what a node calls for: it stands for a surface and owns nothing, or it stands for a displacement and owns
a constant if anything, or it owns a node of its own and does with its inputs what the recipe says. -/
inductive Follows (n : Node) (t : Recorder) (l : Leaf) : Prop
  | surface (role : l.role = .surface) (category : n.category = "surface") (nothing : l.hold.owned? = none)
  | displacement (role : l.role = .displacement n.name) (category : n.category = "displacement")
      (shows : ∀ h, l.hold.owned? = some h → t.Shows h n.name ⟨.constantTexture, [.value], []⟩)
  | native {type : NodeType} {role : Role} {settings : List (InputKey × Bound)}
      (recipe : Recipe.of n = .ok (.create type role settings)) (made : form l.role = form role)
      (shows : ∀ h, l.hold.owned? = some h → t.Shows h n.name ⟨type, inputKeys role, settings⟩)

theorem Follows.shows {n : Node} {t : Recorder} {l : Leaf} {h : Handle} (follows : Follows n t l)
    (own : l.hold.owned? = some h) : ∃ sig, n.CallsFor sig ∧ t.Shows h n.name sig := by
  cases follows with
  | surface _ _ nothing =>
      rw [nothing] at own
      cases own
  | displacement _ category shows => exact ⟨_, .displacement category, shows h own⟩
  | native recipe _ shows => exact ⟨_, callsFor_of_recipe recipe, shows h own⟩

/-- A leaf that owns no other node is what its node calls for still. -/
theorem Follows.mono {n : Node} {t t' : Recorder} {l : Leaf} {hold : Hold} (follows : Follows n t l)
    (same : ∀ h, hold.owned? = some h → l.hold.owned? = some h ∧ t'.node? h = t.node? h) :
    Follows n t' { l with hold } := by
  have shows {name : String} {sig : Signature} (hs : ∀ h, l.hold.owned? = some h → t.Shows h name sig) :
      ∀ h, hold.owned? = some h → t'.Shows h name sig := by
    intro h own
    obtain ⟨m, hm, bears⟩ := hs h (same h own).1
    exact ⟨m, (same h own).2.trans hm, bears⟩
  cases follows with
  | surface role category nothing =>
      refine .surface role category (Option.eq_none_iff_forall_ne_some.2 fun h own => ?_)
      have own := (same h own).1
      rw [nothing] at own
      cases own
  | displacement role category hs => exact .displacement role category (shows hs)
  | native recipe made hs => exact .native recipe made (shows hs)

/-- Every leaf that is a child is what its node calls for. No handle has two owners, and a leaf that does not forward
holds only what it owns. -/
structure Kept (a : Assembly) (t : Recorder) : Prop where
  numbered : ∀ {x l h}, a.leaf? x = some l → l.hold.owned? = some h → h.id < t.created
  single : ∀ {x y l k h}, a.leaf? x = some l → a.leaf? y = some k → l.hold.owned? = some h →
    k.hold.owned? = some h → x = y
  native : ∀ {x l}, a.leaf? x = some l → Forwards l.role = false → l.hold.handle? = l.hold.owned?
  placed : ∀ {id name x}, a.child? id name = some x → x < a.size
  child : ∀ {id name x k l}, a.composite? id = some k → k.child? name = some x → a.leaf? x = some l →
    ∃ n, k.graph.node? name = some n ∧ Follows n t l

namespace Kept

variable {a a' : Assembly} {t : Recorder} {h : Handle}

theorem start (t : Recorder) : Kept {} t := ⟨nofun, nofun, nofun, nofun, nofun⟩

/-- Parts may be added and noted as long as leaves and children stay the same. -/
theorem extend (kept : Kept a t) (more : Extends a a') (leaf : ∀ x, a'.leaf? x = a.leaf? x)
    (child : ∀ id name, a'.child? id name = a.child? id name) : Kept a' t where
  numbered there own := kept.numbered ((leaf _).symm.trans there) own
  single hx hy := kept.single ((leaf _).symm.trans hx) ((leaf _).symm.trans hy)
  native there := kept.native ((leaf _).symm.trans there)
  placed there := Nat.lt_of_lt_of_le (kept.placed ((child _ _).symm.trans there)) more.size
  child {id name x k l} composite there hl := by
    have there : a.child? id name = some x := by
      rw [← child, child?_of_composite? composite]
      exact there
    obtain ⟨k₀, composite₀, there₀⟩ := Option.bind_eq_some_iff.1 there
    obtain ⟨k₁, composite₁, same⟩ := more.composite composite₀
    cases composite.symm.trans composite₁
    rw [same]
    exact kept.child composite₀ there₀ ((leaf x).symm.trans hl)

/-- The handle of a node that is created now is spare. -/
theorem spare_of_create {type : NodeType} (kept : Kept a t) (reply : (Recorder.create type t).1 = .ok h) :
    Spare a h := by
  intro x l there own
  have old := kept.numbered there own
  rw [(Recorder.create_ok reply).1] at old
  exact Nat.lt_irrefl _ old

theorem create (kept : Kept a t) (type : NodeType) : Kept a (Recorder.create type t).2 := by
  cases reply : (Recorder.create type t).1 with
  | error e =>
      rw [Recorder.create_error reply]
      exact kept
  | ok h =>
      have old {g : Handle} (hg : g.id < t.created) : (Recorder.create type t).2.node? g = t.node? g := by
        rw [Recorder.node?_create reply, if_neg]
        rintro rfl
        rw [(Recorder.create_ok reply).1] at hg
        exact Nat.lt_irrefl _ hg
      refine ⟨fun there own => ?_, kept.single, kept.native, kept.placed, fun composite there hl => ?_⟩
      · rw [(Recorder.create_ok reply).2]
        exact Nat.lt_succ_of_lt (kept.numbered there own)
      · obtain ⟨n, hn, follows⟩ := kept.child composite there hl
        exact ⟨n, hn, follows.mono fun g own => ⟨own, old (kept.numbered hl own)⟩⟩

/-- What is done to a handle without an owner concerns no leaf. -/
theorem acted (kept : Kept a t) {action : Action} (reply : Except CallError Unit)
    (spare : ∀ g, (Event.acted action reply).target? = some g → Spare a g) : Kept a (Recorder.act action t).2 := by
  refine ⟨fun there own => ?_, kept.single, kept.native, kept.placed, fun composite there hl => ?_⟩
  · rw [Recorder.created_act]
    exact kept.numbered there own
  · obtain ⟨n, hn, follows⟩ := kept.child composite there hl
    refine ⟨n, hn, follows.mono fun g own => ⟨own, Recorder.node?_act_of_ne reply fun target => ?_⟩⟩
    exact spare g target _ _ hl own

/-- An input of a leaf may be bound. -/
theorem bound {x : PartId} {l : Leaf} {key : InputKey} (kept : Kept a t) (leaf : a.leaf? x = some l)
    (held : l.hold.handle? = some h) (mem : key ∈ inputKeys l.role) (value : Bound) :
    Kept a (Recorder.act (.bind h key value) t).2 := by
  have native := native_of_mem_inputKeys mem
  have mine : l.hold.owned? = some h := (kept.native leaf native).symm.trans held
  refine ⟨fun there own => ?_, kept.single, kept.native, kept.placed, fun {id name y k l'} composite there hl => ?_⟩
  · rw [Recorder.created_act]
    exact kept.numbered there own
  obtain ⟨n, hn, follows⟩ := kept.child composite there hl
  refine ⟨n, hn, ?_⟩
  by_cases same : l'.hold.owned? = some h
  · cases kept.single leaf hl mine same
    cases leaf.symm.trans hl
    cases follows with
    | surface role | displacement role =>
        rw [role] at native
        cases native
    | @native type role settings recipe made shows =>
        refine .native recipe made fun g own => ?_
        cases mine.symm.trans own
        obtain ⟨m, hm, bears⟩ := shows h own
        rw [(alike_of_form made).1] at mem
        rw [Recorder.Shows, Recorder.act_bind]
        split
        · refine ⟨m.bind key value, ?_, bears.bind mem ((callsFor_of_recipe recipe).apart mem) value⟩
          rw [Recorder.node?_modify, if_pos rfl, hm, Option.map_some]
        · exact ⟨m, hm, bears⟩
  · refine follows.mono fun g own => ⟨own, Recorder.node?_act_of_ne (.ok ()) ?_⟩
    rintro ⟨⟩
    exact same own

/-- Another state of a leaf. -/
theorem setLeaf {x : PartId} {l l' : Leaf} (kept : Kept a t) (leaf : a.leaf? x = some l)
    (taken : ∀ h, l'.hold.owned? = some h → l.hold.owned? = some h ∨ Spare a h ∧ h.id < t.created)
    (native : Forwards l'.role = false → l'.hold.handle? = l'.hold.owned?)
    (follows : ∀ n, Follows n t l → Follows n t l') : Kept (a.apply (.leaf x l')) t := by
  have here (y : PartId) : (a.apply (.leaf x l')).leaf? y = if y = x then some l' else a.leaf? y := leaf?_leaf leaf l'
  have other {y : PartId} (hy : y ≠ x) : (a.apply (.leaf x l')).leaf? y = a.leaf? y := (here y).trans (if_neg hy)
  have self {k : Leaf} (hk : (a.apply (.leaf x l')).leaf? x = some k) : l' = k := by
    rw [here, if_pos rfl] at hk
    exact Option.some.inj hk
  have apart {y : PartId} {k : Leaf} {h : Handle} (hy : y ≠ x) (there : a.leaf? y = some k)
      (own : k.hold.owned? = some h) (mine : l'.hold.owned? = some h) : False := by
    rcases taken h mine with before | ⟨spare, -⟩
    · exact hy (kept.single there leaf own before)
    · exact spare y k there own
  constructor
  · intro y k h there own
    by_cases hy : y = x
    · subst hy
      cases self there
      rcases taken h own with before | ⟨-, small⟩
      · exact kept.numbered leaf before
      · exact small
    · exact kept.numbered ((other hy).symm.trans there) own
  · intro y z k k' h hk hk' own own'
    by_cases hy : y = x <;> by_cases hz : z = x
    · exact hy.trans hz.symm
    · subst hy
      cases self hk
      exact (apart hz ((other hz).symm.trans hk') own' own).elim
    · subst hz
      cases self hk'
      exact (apart hy ((other hy).symm.trans hk) own own').elim
    · exact kept.single ((other hy).symm.trans hk) ((other hz).symm.trans hk') own own'
  · intro y k there
    by_cases hy : y = x
    · subst hy
      cases self there
      exact native
    · exact kept.native ((other hy).symm.trans there)
  · intro id name y there
    rw [size_leaf]
    exact kept.placed ((child?_congr (composite?_leaf leaf l') name).symm.trans there)
  · intro id name y k k' composite there hl
    rw [composite?_leaf leaf] at composite
    by_cases hy : y = x
    · subst hy
      cases self hl
      obtain ⟨n, hn, before⟩ := kept.child composite there leaf
      exact ⟨n, hn, follows n before⟩
    · exact kept.child composite there ((other hy).symm.trans hl)

/-- A new leaf, which is no child yet. -/
theorem addLeaf {l : Leaf} (kept : Kept a t) (owned : ∀ h, l.hold.owned? = some h → Spare a h ∧ h.id < t.created)
    (native : Forwards l.role = false → l.hold.handle? = l.hold.owned?) : Kept (a.apply (.add (.leaf l))) t := by
  have here (y : PartId) : (a.apply (.add (.leaf l))).leaf? y = if y = a.size then some l else a.leaf? y :=
    leaf?_add_leaf l
  have old {y : PartId} (hy : y ≠ a.size) : (a.apply (.add (.leaf l))).leaf? y = a.leaf? y :=
    (here y).trans (if_neg hy)
  have self {k : Leaf} (hk : (a.apply (.add (.leaf l))).leaf? a.size = some k) : l = k := by
    rw [here, if_pos rfl] at hk
    exact Option.some.inj hk
  constructor
  · intro y k h there own
    by_cases hy : y = a.size
    · subst hy
      cases self there
      exact (owned h own).2
    · exact kept.numbered ((old hy).symm.trans there) own
  · intro y z k k' h hk hk' own own'
    by_cases hy : y = a.size <;> by_cases hz : z = a.size
    · exact hy.trans hz.symm
    · subst hy
      cases self hk
      exact ((owned h own).1 z k' ((old hz).symm.trans hk') own').elim
    · subst hz
      cases self hk'
      exact ((owned h own').1 y k ((old hy).symm.trans hk) own).elim
    · exact kept.single ((old hy).symm.trans hk) ((old hz).symm.trans hk') own own'
  · intro y k there
    by_cases hy : y = a.size
    · subst hy
      cases self there
      exact native
    · exact kept.native ((old hy).symm.trans there)
  · intro id name y there
    rw [child?_add_leaf] at there
    rw [size_add]
    exact Nat.lt_succ_of_lt (kept.placed there)
  · intro id name y k k' composite there hl
    rw [composite?_add_leaf] at composite
    have hy : y ≠ a.size :=
      Nat.ne_of_lt (kept.placed ((child?_of_composite? composite name).trans there))
    exact kept.child composite there ((old hy).symm.trans hl)

/-- A part is noted as a child. If it is a leaf, it is what its node calls for. -/
theorem note {id x : PartId} {name : String} {k : Composite} (kept : Kept a t) (composite : a.composite? id = some k)
    (there : x < a.size) (follows : ∀ l, a.leaf? x = some l → ∃ n, k.graph.node? name = some n ∧ Follows n t l) :
    Kept (a.apply (.child id name x)) t := by
  refine ⟨?_, ?_, ?_, ?_, ?_⟩
  · intro y l h hl
    rw [leaf?_child] at hl
    exact kept.numbered hl
  · intro y z l l' h hl hl'
    rw [leaf?_child] at hl hl'
    exact kept.single hl hl'
  · intro y l hl
    rw [leaf?_child] at hl
    exact kept.native hl
  · intro j n y hy
    rw [size_child]
    by_cases same : id ≠ j ∨ name ≠ n
    · exact kept.placed ((child?_child_of_ne same x).symm.trans hy)
    · obtain ⟨rfl, rfl⟩ : id = j ∧ name = n := by simpa using same
      rw [child?_child_self composite] at hy
      cases hy
      exact there
  · intro j n y k' l composite' hy hl
    rw [leaf?_child] at hl
    obtain ⟨k₀, composite₀, same⟩ : ∃ k₀, a.composite? j = some k₀ ∧ k'.graph = k₀.graph := by
      rw [composite?_child] at composite'
      split at composite'
      · obtain ⟨k₀, composite₀, rfl⟩ := Option.map_eq_some_iff.1 composite'
        exact ⟨k₀, composite₀, rfl⟩
      · exact ⟨k', composite', rfl⟩
    rw [same]
    have hy : (a.apply (.child id name x)).child? j n = some y := (child?_of_composite? composite' n).trans hy
    by_cases same : id ≠ j ∨ name ≠ n
    · rw [child?_child_of_ne same, child?_of_composite? composite₀] at hy
      exact kept.child composite₀ hy hl
    · obtain ⟨rfl, rfl⟩ : id = j ∧ name = n := by simpa using same
      rw [child?_child_self composite] at hy
      cases hy
      cases composite.symm.trans composite₀
      exact follows l hl

end Kept

/-- Nothing that happens up to a context has broken what is kept. -/
abbrev Keeps (s : Recorder) (c : Context Recorder) : Prop := Always Recorder.renderer s Kept c

section

variable {s : Recorder} {c : Context Recorder}

theorem Keeps.quiet {e : Edit} (keeps : Keeps s c) (more : Extends c.assembly (c.assembly.apply e))
    (leaf : ∀ x, (c.assembly.apply e).leaf? x = c.assembly.leaf? x)
    (child : ∀ id name, (c.assembly.apply e).child? id name = c.assembly.child? id name) : Keeps s (c.edit e) :=
  keeps.edit (keeps.now.extend more leaf child)

theorem Keeps.mark {e : Edit} (keeps : Keeps s c) (mark : IsMark e) : Keeps s (c.edit e) := by
  cases mark <;> exact keeps.edit keeps.now

theorem Keeps.composite (keeps : Keeps s c) (g : Graph) : Keeps s (c.edit (.add (.composite { graph := g }))) :=
  keeps.quiet (.add _ _) (fun _ => leaf?_add_composite _) fun _ => child?_add_composite g

end

namespace Build

variable {s : Recorder} {c c' : Context Recorder} {h : Handle}

/-! ### Creation -/

theorem Acts.created_eq {P : Action → Prop} (acts : Acts Recorder.renderer P c c') :
    c'.system.created = c.system.created := by
  induction acts with
  | refl => rfl
  | act _ _ ih => exact (Recorder.created_act _).trans ih

theorem Acts.keeps {settings : List (InputKey × Bound)} (acts : Acts Recorder.renderer (IsSetting h settings) c c')
    (keeps : Keeps s c) (spare : Spare c.assembly h) : Keeps s c' := by
  induction acts with
  | refl => exact keeps
  | act before ha ih =>
      refine ih.acted (ih.now.acted (.ok ()) fun g target => ?_)
      rw [before.assembly]
      cases ha <;> cases target <;> exact spare

theorem CreatesLeaf.keeps {type : NodeType} {role : Role} {settings : List (InputKey × Bound)} {name : Option String}
    {res : Result Leaf} (creation : CreatesLeaf Recorder.renderer type role settings name c res c')
    (keeps : Keeps s c) : Keeps s c' := by
  have made : Keeps s (c.created Recorder.renderer type) := keeps.created type (keeps.now.create type)
  cases creation with
  | refused => exact made
  | done reply setup => exact setup.settings.keeps made (keeps.now.spare_of_create reply)
  | undone reply setup =>
      have spare := keeps.now.spare_of_create reply
      have settled := setup.settings.keeps made spare
      refine settled.acted (settled.now.acted (.ok ()) fun g target => ?_)
      cases target
      rw [setup.settings.assembly]
      exact spare

/-- What a new leaf owns has no other owner. -/
theorem CreatesLeaf.spare {type : NodeType} {role : Role} {settings : List (InputKey × Bound)} {name : Option String}
    {l : Leaf} (creation : CreatesLeaf Recorder.renderer type role settings name c (.ok l) c') (keeps : Keeps s c)
    (own : l.hold.owned? = some h) : Spare c'.assembly h ∧ h.id < c'.system.created := by
  cases creation with
  | done reply setup =>
      cases own
      constructor
      · rw [setup.settings.assembly]
        exact keeps.now.spare_of_create reply
      · rw [setup.settings.created_eq, Context.created_system]
        change _ < (Recorder.create type c.system).2.created
        rw [(Recorder.create_ok reply).1, (Recorder.create_ok reply).2]
        exact Nat.lt_succ_self _

theorem CreatesLeaf.addKeeps {type : NodeType} {role : Role} {settings : List (InputKey × Bound)}
    {name : Option String} {l : Leaf} (creation : CreatesLeaf Recorder.renderer type role settings name c (.ok l) c')
    (keeps : Keeps s c) : Keeps s (c'.edit (.add (.leaf l))) := by
  have made := creation.keeps keeps
  refine made.edit (made.now.addLeaf (fun h own => creation.spare keeps own) ?_)
  cases creation
  exact fun _ => rfl

theorem MakesLeaf.addKeeps {n : Node} {l : Leaf} (makes : MakesLeaf Recorder.renderer n c l c') (keeps : Keeps s c) :
    Keeps s (c'.edit (.add (.leaf l))) := by
  cases makes with
  | forward => exact keeps.edit (keeps.now.addLeaf nofun fun _ => rfl)
  | create _ creation => exact creation.addKeeps keeps

/-- A leaf that is made for a node is what the node calls for. -/
theorem MakesLeaf.follows {n : Node} {l : Leaf} (makes : MakesLeaf Recorder.renderer n c l c') :
    Follows n c'.system l := by
  cases makes with
  | forward recipe =>
      rcases forward_of_recipe recipe with ⟨role, category⟩ | ⟨role, category⟩
      · exact .surface role category rfl
      · exact .displacement role category nofun
  | @create _ l type role settings recipe creation =>
      have calls := callsFor_of_recipe recipe
      obtain ⟨g, rfl, shows⟩ := creation.shows calls.nodup (inputKeys role)
      refine .native recipe rfl fun h own => ?_
      cases own
      exact shows

/-! ### Bindings -/

theorem keeps_released {x : PartId} {l : Leaf} (keeps : Keeps s c) (leaf : c.assembly.leaf? x = some l) :
    Keeps s (released Recorder.renderer x l c) := by
  have emptied : Keeps s (c.edit (.leaf x { l with hold := .nothing })) :=
    keeps.edit (keeps.now.setLeaf leaf nofun (fun _ => rfl) fun n follows => follows.mono nofun)
  unfold released
  cases own : l.hold.owned? with
  | none => exact emptied
  | some h =>
      refine emptied.acted (emptied.now.acted (.ok ()) fun g target y k there mine => ?_)
      cases target
      rw [Context.edit_assembly, leaf?_leaf leaf] at there
      split at there
      · cases there
        cases mine
      · next hy => exact hy (keeps.now.single there leaf mine own)

theorem BindsLeaf.keeps {x : PartId} {l : Leaf} {b : Binding} {res : Result Unit}
    (binds : BindsLeaf Recorder.renderer x l b c res c') (keeps : Keeps s c) (leaf : c.assembly.leaf? x = some l) :
    Keeps s c' := by
  have gone : Keeps s (released Recorder.renderer x l c) := keeps_released keeps leaf
  have empty := leaf?_released (r := Recorder.renderer) leaf
  cases binds with
  | unchanged => exact keeps
  | called key _ mem held => exact keeps.acted (keeps.now.bound leaf held mem _)
  | params p' role =>
      refine keeps.edit (keeps.now.setLeaf leaf (fun _ own => .inl own) (fun _ => ?_) fun n follows => ?_)
      · have native : Forwards l.role = false := by
          rw [role]
          rfl
        have own : l.hold.handle? = l.hold.owned? := keeps.now.native leaf native
        exact own
      · cases follows with
        | surface other | displacement other =>
            rw [role] at other
            cases other
        | native recipe made shows =>
            rw [role] at made
            exact .native recipe made shows
  | forwarded role =>
      refine keeps.edit (keeps.now.setLeaf leaf nofun (fun native => ?_) fun n follows => follows.mono nofun)
      rw [role] at native
      cases native
  | @redirected g name role =>
      refine gone.edit (gone.now.setLeaf empty nofun (fun native => ?_) fun n follows => ?_)
      · rw [role] at native
        cases native
      · have after : Follows n (released Recorder.renderer x l c).system { l with hold := .borrowed g } :=
          follows.mono nofun
        exact after
  | emptied => exact gone
  | lost _ _ creation => exact creation.keeps gone
  | @replaced constant name value type v c₁ role _ creation =>
      have made := creation.keeps gone
      have there : c₁.assembly.leaf? x = some { l with hold := .nothing } := by
        rw [creation.assembly]
        exact empty
      obtain ⟨g, rfl, m, hm, bears⟩ := creation.shows (List.nodup_singleton _) []
      refine made.edit (made.now.setLeaf there (fun h own => .inr (creation.spare gone own)) (fun _ => rfl) ?_)
      intro n follows
      cases follows with
      | surface other =>
          cases role.symm.trans other
      | displacement same category =>
          cases role.symm.trans same
          refine .displacement role category fun h own => ?_
          cases own
          exact ⟨m, hm, bears.loosen⟩
      | native recipe made =>
          have forwards : Forwards l.role = _ := (alike_of_form made).2
          rw [role, native_of_recipe recipe] at forwards
          cases forwards

theorem Binds.keeps {x : PartId} {b : Binding} (binds : Binds Recorder.renderer x b c c') (keeps : Keeps s c) :
    Keeps s c' := by
  induction binds with
  | refl => exact keeps
  | remark _ margin text ih => exact ih.push (.remark margin text)
  | leaf _ _ leaf binds ih => exact binds.keeps ih leaf

theorem Connects.keeps {x y : PartId} {success : Bool} (connects : Connects Recorder.renderer x y success c c')
    (keeps : Keeps s c) : Keeps s c' := by
  obtain @⟨_, output, i, passes⟩ := connects
  have begun := keeps.mark (.began (.connection x output y i))
  refine Keeps.mark ?_ (.ended _ _)
  cases passes with
  | nothing => exact begun
  | handle _ _ binds => exact binds.keeps begun

/-! ### Runs -/

theorem Barren.keeps (h : Barren Recorder.renderer c c') (keeps : Keeps s c) : Keeps s c' := by
  induction h with
  | refl => exact keeps
  | trans _ _ ih₁ ih₂ => exact ih₂ (ih₁ keeps)
  | message _ message => exact keeps.push message
  | task _ ih => exact (ih (keeps.mark (.began _))).mark (.ended _ _)
  | failed _ creation => exact creation.keeps keeps
  | composite _ g => exact keeps.composite g

theorem Starts.keeps {g : NodeGraph} {x : PartId} (h : Starts g c x c') (keeps : Keeps s c) : Keeps s c' := by
  have shared {c : Context Recorder} (state : Construction) (keeps : Keeps s c) :
      Keeps s (c.edit (.freeStanding g.name state)) :=
    keeps.quiet (.share (.freeStanding _ _)) (fun _ => rfl) fun _ _ => rfl
  cases h with
  | first => exact shared _ (keeps.composite _)
  | again => exact shared _ keeps

/-- Every run keeps it so. -/
theorem Run.keepsAll {W : Env Recorder} (recording : W.renderer = Recorder.renderer) {ph : Phase} {id : PartId} {n : Nat}
    (h : Run W ph id n c c') (keeps : Keeps s c) : Keeps s c' := by
  induction h with
  | refl => exact keeps
  | trans _ _ ih₁ ih₂ => exact ih₂ (ih₁ keeps)
  | message _ message => exact keeps.push message
  | barren barren => exact (recording ▸ barren).keeps keeps
  | task _ _ ih => exact (ih (keeps.mark (.began _))).mark (.ended _ _)
  | @leafChild id n c c₁ node k l composite there absent makes =>
      rw [recording] at makes
      have made := makes.addKeeps keeps
      refine made.edit (made.now.note (k := k) ?_ ?_ fun l' hl => ⟨node, there, ?_⟩)
      · rw [Context.edit_assembly, composite?_add_leaf, makes.assembly, composite]
      · rw [Context.edit_assembly, size_add]
        exact Nat.lt_succ_self _
      · rw [Context.edit_assembly, leaf?_add_leaf, if_pos rfl] at hl
        cases hl
        exact makes.follows
  | @compositeChild id n c c₁ node k g composite there absent recipe implementation inner ih =>
      have built := ih (keeps.composite _)
      have more := inner.steps.extends
      obtain ⟨k₁, composite₁, same⟩ := ((Extends.add c.assembly _).trans more).composite composite
      have new : (c.edit (.add (.composite { graph := .named g }))).assembly.composite? c.assembly.size =
          some { graph := .named g } := by
        rw [Context.edit_assembly, composite?_add_composite, if_pos rfl]
      obtain ⟨k₂, composite₂, -⟩ := more.composite new
      refine built.edit (built.now.note composite₁ (lt_size_of_composite? composite₂) fun l hl => ?_)
      rw [leaf?_eq_none_of_composite? composite₂] at hl
      cases hl
  | socket => exact keeps.quiet (.note _ (.socket _ _ _)) (fun _ => leaf?_socket _ _) fun _ => child?_socket _ _
  | literal _ binds => exact (recording ▸ binds).keeps keeps
  | inside _ _ _ _ connects =>
      have connected := (recording ▸ connects).keeps keeps
      exact connected.quiet (.note _ (.edge _ _)) (fun _ => leaf?_edge _) fun _ => child?_edge _
  | insideFailed _ _ _ _ connects => exact (recording ▸ connects).keeps keeps
  | geometry absent creation =>
      rw [recording] at creation
      refine Keeps.quiet (creation.addKeeps keeps) (.share (.geometry ?_)) (fun _ => rfl) fun _ _ => rfl
      rw [← creation.assembly] at absent
      exact absent
  | top absent => exact (keeps.composite _).quiet (.share (.top absent)) (fun _ => rfl) fun _ _ => rfl
  | viaTop _ _ _ ih => exact (ih (keeps.mark (.began _))).mark (.ended _ _)
  | viaGraph starts _ ih =>
      exact (ih (starts.keeps keeps)).quiet (.share (.freeStanding _ _)) (fun _ => rfl) fun _ _ => rfl
  | outside _ _ connects => exact (recording ▸ connects).keeps keeps

theorem Works.keeps {W : Env Recorder} (recording : W.renderer = Recorder.renderer) {harvest harvest' : Harvest}
    (h : Works W harvest c harvest' c') (keeps : Keeps s c) : Keeps s c' := by
  induction h with
  | refl | more | root => exact keeps
  | trans _ _ ih₁ ih₂ => exact ih₂ (ih₁ keeps)
  | mark _ _ mark => exact keeps.mark mark
  | inside _ _ run => exact run.keepsAll recording keeps
  | elsewhere _ run => exact (run .asking 0 0).keepsAll recording keeps
  | own _ inner => exact inner.keepsAll recording (keeps.composite _)
  | wrap _ _ creation => exact (recording ▸ creation).addKeeps keeps
  | wrapFailed _ _ creation => exact (recording ▸ creation).keeps keeps

theorem Halfway.keeps {W : Env Recorder} (recording : W.renderer = Recorder.renderer) (h : Halfway W c c')
    (keeps : Keeps s c) : Keeps s c' := by
  induction h with
  | refl => exact keeps
  | tail _ last ih =>
      cases last with
      | run run => exact run.keepsAll recording ih
      | works works => exact works.keeps recording ih
      | began t => exact ih.mark (.began t)
      | composite g => exact ih.composite g
      | starts starts => exact starts.keeps ih

theorem keeps_releasedAll (xs : List PartId) (keeps : Keeps s c) : Keeps s (releasedAll Recorder.renderer xs c) :=
  releasedAll_induction (fun leaf before => keeps_released before leaf) xs keeps

theorem Loads.keeps {W : Env Recorder} (recording : W.renderer = Recorder.renderer) {result : LoadResult}
    (h : Loads W c result c') (keeps : Keeps s c) : Keeps s c' := by
  cases h with
  | nothing => exact keeps.push (.warning _)
  | unresolved works =>
      rw [recording]
      exact keeps_releasedAll _ ((works.keeps recording keeps).push (.warning _))
  | handOver works _ message =>
      rw [recording]
      exact (keeps_releasedAll _ (works.keeps recording keeps)).push message

end Build

/-! ## Loads -/

/-- At every moment of a load, whether it returns or not and whatever nodes can be created: what a child of a composite
owns is a live node with the name of the child's node and with the signature that the node calls for. So neither inputs
nor overrides nor bound inputs reach its settings, and nothing is bound to it but under the keys of its inputs. A load
that returns leaves the recorder in the last of these moments. -/
theorem load_keeps_signatures (l : Loader) (d : Document) (options : LoadOptions) (fileExists : String → Bool)
    (s : Recorder) :
    (∀ o, l.load d options fileExists Recorder.renderer s = some o →
      o.journal = l.trace d options fileExists Recorder.renderer s ∧
        o.system = Recorder.renderer.follow s o.journal) ∧
    ∀ before later, l.trace d options fileExists Recorder.renderer s = before ++ later → ∀ id name x k leaf h,
      (replay before).composite? id = some k → k.child? name = some x → (replay before).leaf? x = some leaf →
      leaf.hold = .owned h →
      ∃ n sig m, k.graph.node? name = some n ∧ n.CallsFor sig ∧
        (Recorder.renderer.follow s before).node? h = some m ∧ m.Bears name sig := by
  constructor
  · intro o loaded
    obtain ⟨c, loads, system, journal⟩ := loads_of_load loaded
    refine ⟨(trace_of_load loaded).symm, ?_⟩
    rw [system, journal]
    exact (loads.keeps rfl (.start (.start s))).system.symm
  · obtain ⟨c, traces, trace⟩ := exists_traces l d options fileExists Recorder.renderer s
    have keeps : Keeps s c := traces.elim (fun ⟨_, loads⟩ => loads.keeps rfl (.start (.start s)))
      fun half => half.keeps rfl (.start (.start s))
    intro before later split id name x k leaf h composite child there own
    rw [trace] at split
    obtain ⟨n, hn, follows⟩ := (keeps.after split).child composite child there
    obtain ⟨sig, calls, m, hm, bears⟩ := follows.shows (h := h) (by rw [own]; rfl)
    have same : n.name = name := (mem_of_node? hn).2
    exact ⟨n, sig, m, hn, calls, hm, same ▸ bears⟩

/-- A square root with inputs that are called like keys of the renderer, and an override of one of them. -/
def presumptuous : Document where
  nodeDefs := [
    { name := "ND_sqrt", node := "sqrt", type := "float"
      inputs := [{ name := "in", type := "float", value := some "2" },
        { name := "Op", type := "integer", value := some "1" },
        { name := "Color1", type := "float", value := some "3" }] }]
  nodes := [
    { name := "r", category := "sqrt", type := "float"
      inputs := [{ name := "Op", type := "integer", value := some "0" }] }]
  outputs := [{ name := "o", type := "float", nodeName := some "r" }]

theorem load_keeps_signatures_presumptuous :
    ∃ o n sig m, Loader.load {} presumptuous {} (fun _ => false) Recorder.renderer {} = some o ∧
      presumptuous.node? "r" = some n ∧ n.CallsFor sig ∧ o.system.node? ⟨0⟩ = some m ∧ m.Bears "r" sig ∧
      sig = ⟨.arithmetic, [.color0],
        [(.op, .word Opcode.pow.id), (.color1, .floats ⟨.half, .half, .half, .one⟩)]⟩ ∧ (m.bound .color0).isSome := by
  have evaluated : (Loader.load {} presumptuous {} (fun _ => false) Recorder.renderer {}).map
      (fun o => (((replay o.journal).composite? 0).bind (·.graph.node? "r"), (replay o.journal).child? 0 "r",
        ((replay o.journal).leaf? 1).map (·.hold), ((o.system.node? ⟨0⟩).bind fun m => m.bound .color0).isSome)) =
      some (presumptuous.node? "r", some 1, some (.owned ⟨0⟩), true) := by decide +kernel
  obtain ⟨o, loaded, same⟩ := Option.map_eq_some_iff.1 evaluated
  obtain ⟨node, same⟩ := Prod.mk.inj same
  obtain ⟨child, same⟩ := Prod.mk.inj same
  obtain ⟨own, bound⟩ := Prod.mk.inj same
  obtain ⟨leaf, there, own⟩ := Option.map_eq_some_iff.1 own
  obtain ⟨k, composite, child⟩ := Option.bind_eq_some_iff.1 child
  obtain ⟨system, always⟩ := load_keeps_signatures {} presumptuous {} (fun _ => false) {}
  obtain ⟨journal, system⟩ := system o loaded
  obtain ⟨n, sig, m, hn, calls, hm, bears⟩ :=
    always o.journal [] (journal.symm.trans (List.append_nil _).symm) 0 "r" 1 k leaf ⟨0⟩ composite child there own
  rw [composite] at node
  have source : presumptuous.node? "r" = some n := node.symm.trans hn
  have category : n.category = "sqrt" := by
    have known : (presumptuous.node? "r").map (·.category) = some "sqrt" := by decide
    rw [source] at known
    exact Option.some.inj known
  rw [← system] at hm
  rw [hm] at bound
  exact ⟨o, n, sig, m, loaded, source, calls, hm, bears, calls.unique (.sqrt category), bound⟩

end MaterialGraph
