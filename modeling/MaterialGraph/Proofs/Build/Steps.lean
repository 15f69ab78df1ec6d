import Mathlib.Logic.Relation
import MaterialGraph.Proofs.Build.Run

/-!
# Steps

A run is a sequence of steps of a few kinds, whatever opened it (`Run.steps`). What each step keeps, every run keeps.

* `Step` : one step.
* `Move` : the smallest changes of a context, of which every step is made up (`Step.moves`). They only add events.
* `Extends` : what an assembly keeps. Parts stay what they are, and what is shared stays where it is.
-/

namespace MaterialGraph.Build

set_option autoImplicit false

open Assembly Relation

variable {σ : Type}

/-! ## Changes of leaves only -/

/-- Two assemblies differ at most in the leaves of a set. -/
structure Rebinds (S : PartId → Prop) (a a' : Assembly) : Prop where
  size : a'.size = a.size
  composite : ∀ id, a'.composite? id = a.composite? id
  leaf : ∀ id, (a'.leaf? id).isSome = (a.leaf? id).isSome
  other : ∀ id, ¬ S id → a'.leaf? id = a.leaf? id
  top : a'.top = a.top
  geometry : a'.geometry = a.geometry
  freeStanding : a'.freeStanding = a.freeStanding

namespace Rebinds

variable {S T : PartId → Prop} {a a₁ a₂ : Assembly}

theorem refl (a : Assembly) : Rebinds S a a :=
  ⟨rfl, fun _ => rfl, fun _ => rfl, fun _ _ => rfl, rfl, rfl, rfl⟩

theorem trans (h₁ : Rebinds S a a₁) (h₂ : Rebinds S a₁ a₂) : Rebinds S a a₂ where
  size := h₂.size.trans h₁.size
  composite id := (h₂.composite id).trans (h₁.composite id)
  leaf id := (h₂.leaf id).trans (h₁.leaf id)
  other id hid := (h₂.other id hid).trans (h₁.other id hid)
  top := h₂.top.trans h₁.top
  geometry := h₂.geometry.trans h₁.geometry
  freeStanding := h₂.freeStanding.trans h₁.freeStanding

theorem mono (h : Rebinds S a a₁) (hS : ∀ id, S id → T id) : Rebinds T a a₁ :=
  { h with other := fun id hid => h.other id fun hs => hid (hS id hs) }

theorem setLeaf {x : PartId} {l₀ : Leaf} (hx : a.leaf? x = some l₀) (l : Leaf) :
    Rebinds (· = x) a (a.apply (.leaf x l)) where
  size := size_leaf l
  composite _ := composite?_leaf hx l
  leaf id := by
    rw [leaf?_leaf hx]
    by_cases h : id = x
    · rw [if_pos h, h, hx]
      rfl
    · rw [if_neg h]
  other id hid := by rw [leaf?_leaf hx, if_neg hid]
  top := rfl
  geometry := rfl
  freeStanding := rfl

/-- What stands below a part does not change. -/
theorem below (h : Rebinds S a a₁) {x y : PartId} : Below a₁ x y ↔ Below a x y :=
  ⟨fun hb => hb.mono fun id name _ hz => (child?_congr (h.composite id) name).symm.trans hz,
    fun hb => hb.mono fun id name _ hz => (child?_congr (h.composite id) name).trans hz⟩

end Rebinds

theorem Acts.assembly {r : Renderer σ} {P : Action → Prop} {c c' : Context σ} (h : Acts r P c c') :
    c'.assembly = c.assembly := by
  induction h with
  | refl => rfl
  | act _ _ ih => exact ih

theorem CreatesLeaf.assembly {r : Renderer σ} {type : NodeType} {role : Role} {settings : List (InputKey × Bound)}
    {name : Option String}
    {c c' : Context σ} {res : Result Leaf} (h : CreatesLeaf r type role settings name c res c') :
    c'.assembly = c.assembly := by
  cases h with
  | refused => rfl
  | done _ setup => exact setup.settings.assembly
  | undone _ setup => exact setup.settings.assembly

theorem MakesLeaf.assembly {r : Renderer σ} {n : Node} {l : Leaf} {c c' : Context σ} (h : MakesLeaf r n c l c') :
    c'.assembly = c.assembly := by
  cases h with
  | forward => rfl
  | create _ creation => exact creation.assembly

theorem released_assembly (r : Renderer σ) (x : PartId) (l : Leaf) (c : Context σ) :
    (released r x l c).assembly = c.assembly.apply (.leaf x { l with hold := .nothing }) := by
  rw [released]
  cases l.hold.owned? <;> rfl

theorem rebinds_released {r : Renderer σ} {x : PartId} {l : Leaf} {c : Context σ}
    (leaf : c.assembly.leaf? x = some l) : Rebinds (· = x) c.assembly (released r x l c).assembly := by
  rw [released_assembly]
  exact .setLeaf leaf _

theorem leaf?_released {r : Renderer σ} {x : PartId} {l : Leaf} {c : Context σ}
    (leaf : c.assembly.leaf? x = some l) :
    (released r x l c).assembly.leaf? x = some { l with hold := .nothing } := by
  rw [released_assembly, leaf?_leaf leaf, if_pos rfl]

theorem BindsLeaf.rebinds {r : Renderer σ} {x : PartId} {l : Leaf} {b : Binding} {c c' : Context σ}
    {res : Result Unit} (h : BindsLeaf r x l b c res c') (leaf : c.assembly.leaf? x = some l) :
    Rebinds (· = x) c.assembly c'.assembly := by
  have gone : Rebinds (· = x) c.assembly (released r x l c).assembly := rebinds_released leaf
  have empty : (released r x l c).assembly.leaf? x = some { l with hold := .nothing } := leaf?_released leaf
  cases h with
  | unchanged => exact .refl _
  | called => exact .refl _
  | params => exact .setLeaf leaf _
  | forwarded => exact .setLeaf leaf _
  | redirected => exact gone.trans (.setLeaf empty _)
  | emptied => exact gone
  | lost _ _ creation =>
      rw [creation.assembly]
      exact gone
  | replaced _ _ creation =>
      rw [Context.edit_assembly, creation.assembly]
      exact gone.trans (.setLeaf empty _)

theorem Binds.rebinds {r : Renderer σ} {x : PartId} {b : Binding} {c c' : Context σ} (h : Binds r x b c c') :
    Rebinds (Below c.assembly x) c.assembly c'.assembly := by
  induction h with
  | refl => exact .refl _
  | remark _ _ _ ih => exact ih
  | leaf _ below leaf binds ih =>
      refine ih.trans ((binds.rebinds leaf).mono ?_)
      rintro _ rfl
      exact ih.below.1 below

theorem Passes.rebinds {r : Renderer σ} {x y : PartId} {output : Option String} {c c' : Context σ}
    (h : Passes r x output y c c') :
    Rebinds (Below c.assembly y) c.assembly c'.assembly := by
  cases h with
  | nothing => exact .refl _
  | handle _ _ binds => exact binds.rebinds

theorem Connects.rebinds {r : Renderer σ} {x y : PartId} {success : Bool} {c c' : Context σ}
    (h : Connects r x y success c c') : Rebinds (Below c.assembly y) c.assembly c'.assembly := by
  obtain ⟨passes⟩ := h
  exact passes.rebinds

/-! ## Steps -/

/-- A mark of a task. -/
inductive IsMark : Edit → Prop
  | began (t : Task) : IsMark (.began t)
  | ended (t : Task) (success : Bool) : IsMark (.ended t success)

/-- A note in a composite. -/
inductive IsNote : Edit → Prop
  | child (id : PartId) (name : String) (x : PartId) : IsNote (.child id name x)
  | socket (id : PartId) (interface : String) (s : Socket) : IsNote (.socket id interface s)
  | edge (id : PartId) (e : Edge) : IsNote (.edge id e)

/-- A note of a part that graphs share. -/
inductive Shares (a : Assembly) : Edit → Prop
  | top {id : PartId} (absent : a.top = none) : Shares a (.top id)
  | geometry {name : String} {id : PartId} (absent : a.geometry[name]? = none) : Shares a (.geometry name id)
  | freeStanding (name : String) (state : Construction) : Shares a (.freeStanding name state)

/-- One step of a run. -/
inductive Step (r : Renderer σ) (c : Context σ) : Context σ → Prop
  | message {e : Event} (message : IsMessage e) : Step r c (c.push e)
  | mark {e : Edit} (mark : IsMark e) : Step r c (c.edit e)
  | note {e : Edit} (note : IsNote e) : Step r c (c.edit e)
  | share {e : Edit} (shares : Shares c.assembly e) : Step r c (c.edit e)
  | composite (g : Graph) : Step r c (c.edit (.add (.composite { graph := g })))
  | forward {role : Role} (forwards : Forwards role = true) : Step r c (c.edit (.add (.leaf ⟨.nothing, role⟩)))
  | refused {c₁ : Context σ} {type : NodeType} {role : Role} {settings : List (InputKey × Bound)}
      {name : Option String} {e : LoadError}
      (held : ∀ key h, (key, Bound.node h) ∈ settings → ∃ x, Holds c.assembly x h)
      (creation : CreatesLeaf r type role settings name c (.error e) c₁) : Step r c c₁
  | create {c₁ : Context σ} {type : NodeType} {role : Role} {settings : List (InputKey × Bound)}
      {name : Option String} {l : Leaf}
      (native : Forwards role = false)
      (held : ∀ key h, (key, Bound.node h) ∈ settings → ∃ x, Holds c.assembly x h)
      (creation : CreatesLeaf r type role settings name c (.ok l) c₁) : Step r c (c₁.edit (.add (.leaf l)))
  | literal {c₁ : Context σ} {x : PartId} {value type : String} (binds : Binds r x (.literal value type) c c₁) :
      Step r c c₁
  | passes {c₁ : Context σ} {x y : PartId} {output : Option String} (passes : Passes r x output y c c₁) : Step r c c₁

abbrev Steps (r : Renderer σ) : Context σ → Context σ → Prop := ReflTransGen (Step r)

theorem Connects.steps {r : Renderer σ} {x y : PartId} {success : Bool} {c c' : Context σ}
    (h : Connects r x y success c c') : Steps r c c' := by
  obtain ⟨passes⟩ := h
  exact ((ReflTransGen.single (.mark (.began _))).tail (.passes passes)).tail (.mark (.ended _ _))

theorem Fixed.held {settings : List (InputKey × Bound)} (h : Fixed settings) (a : Assembly) (key : InputKey)
    (g : Handle) (mem : (key, Bound.node g) ∈ settings) : ∃ x, Holds a x g :=
  (h key g mem).elim

theorem Barren.steps {r : Renderer σ} {c c' : Context σ} (h : Barren r c c') : Steps r c c' := by
  induction h with
  | refl => exact .refl
  | trans _ _ ih₁ ih₂ => exact ih₁.trans ih₂
  | message c message => exact .single (.message message)
  | task _ ih => exact ((ReflTransGen.single (.mark (.began _))).trans ih).tail (.mark (.ended _ _))
  | failed fixed creation => exact .single (.refused (fixed.held _) creation)
  | composite c g => exact .single (.composite g)

theorem fixed_ofLookup (quantity : Lookup) : Fixed [(.value, .word quantity.id)] := by
  intro key g mem
  simp at mem

theorem fixed_ofMapping (m : Mapping) : Fixed (m.opcode.toList.map fun opcode => (.op, .word opcode.id)) := by
  intro key g mem
  simp at mem

/-- No recipe starts with a node bound to an input. -/
theorem fixed_of_recipe {n : Node} {type : NodeType} {role : Role} {settings : List (InputKey × Bound)}
    (h : Recipe.of n = .ok (.create type role settings)) : Fixed settings := by
  unfold Recipe.of at h
  split at h
  case h_1 | h_2 => cases h
  case h_3 | h_4 =>
    cases h
    exact fixed_ofLookup _
  case h_5 =>
    cases h
    intro key g mem
    simp at mem
  case h_6 =>
    cases h
    intro key g mem
    simp at mem
  case h_7 =>
    unfold Recipe.ofSwizzle at h
    split at h
    all_goals cases h
    all_goals exact fixed_ofMapping _
  case h_8 =>
    split at h
    · cases h
      exact fixed_ofMapping _
    · cases h

/-- A leaf that stands for something else starts without a node. -/
theorem native_of_recipe {n : Node} {type : NodeType} {role : Role} {settings : List (InputKey × Bound)}
    (h : Recipe.of n = .ok (.create type role settings)) : Forwards role = false := by
  unfold Recipe.of at h
  split at h
  case h_1 | h_2 => cases h
  case h_7 =>
    unfold Recipe.ofSwizzle at h
    split at h
    all_goals cases h
    all_goals rfl
  case h_8 =>
    split at h
    all_goals cases h
    all_goals rfl
  all_goals
    cases h
    rfl

theorem forwards_of_recipe {n : Node} {role : Role} (h : Recipe.of n = .ok (.forward role)) : Forwards role = true := by
  unfold Recipe.of at h
  split at h
  case h_1 | h_2 =>
    cases h
    rfl
  case h_7 =>
    unfold Recipe.ofSwizzle at h
    split at h
    all_goals cases h
  case h_8 =>
    split at h
    all_goals cases h
  all_goals cases h

theorem MakesLeaf.steps {r : Renderer σ} {n : Node} {l : Leaf} {c c' : Context σ} (h : MakesLeaf r n c l c') :
    Step r c (c'.edit (.add (.leaf l))) := by
  cases h with
  | forward recipe => exact .forward (forwards_of_recipe recipe)
  | create recipe creation => exact .create (native_of_recipe recipe) ((fixed_of_recipe recipe).held _) creation

/-- The leaf for a geometric property is created and shared. -/
theorem CreatesLeaf.steps_geometry {r : Renderer σ} {l : Leaf} {quantity : Lookup} {name : String} {c c' : Context σ}
    (creation : CreatesLeaf r .inputLookup .plain [(.value, .word quantity.id)] (some name) c (.ok l) c')
    (absent : c.assembly.geometry[name]? = none) :
    Steps r c ((c'.edit (.add (.leaf l))).edit (.geometry name c'.assembly.size)) := by
  rw [← creation.assembly] at absent
  exact (ReflTransGen.single (.create rfl ((fixed_ofLookup _).held _) creation)).tail (.share (.geometry absent))

theorem Starts.steps {r : Renderer σ} {g : NodeGraph} {x : PartId} {c c' : Context σ} (h : Starts g c x c') :
    Steps r c c' := by
  cases h with
  | first => exact (ReflTransGen.single (.composite _)).tail (.share (.freeStanding _ _))
  | again => exact .single (.share (.freeStanding _ _))

/-- A run is a sequence of steps. -/
theorem Run.steps {W : Env σ} {ph : Phase} {id : PartId} {s : Nat} {c c' : Context σ} (h : Run W ph id s c c') :
    Steps W.renderer c c' := by
  induction h with
  | refl => exact .refl
  | trans _ _ ih₁ ih₂ => exact ih₁.trans ih₂
  | message c message => exact .single (.message message)
  | barren barren => exact barren.steps
  | task _ _ ih => exact ((ReflTransGen.single (.mark (.began _))).trans ih).tail (.mark (.ended _ _))
  | leafChild _ _ _ makes => exact (ReflTransGen.single makes.steps).tail (.note (.child _ _ _))
  | compositeChild _ _ _ _ _ _ ih =>
      exact ((ReflTransGen.single (.composite _)).trans ih).tail (.note (.child _ _ _))
  | socket => exact .single (.note (.socket _ _ _))
  | literal _ binds => exact .single (.literal binds)
  | inside _ _ _ _ connects => exact connects.steps.tail (.note (.edge _ _))
  | insideFailed _ _ _ _ connects => exact connects.steps
  | geometry absent creation => exact creation.steps_geometry absent
  | top absent => exact (ReflTransGen.single (.composite _)).tail (.share (.top absent))
  | viaTop _ _ _ ih => exact ((ReflTransGen.single (.mark (.began _))).trans ih).tail (.mark (.ended _ _))
  | viaGraph starts _ ih => exact (starts.steps.trans ih).tail (.share (.freeStanding _ _))
  | outside _ _ connects => exact connects.steps

/-! ## Moves -/

def form (role : Role) : Role :=
  match role with
  | .image _ => .image {}
  | role => role

@[simp] theorem form_eq_wrap {role : Role} : form role = .wrap ↔ role = .wrap := by
  cases role <;> simp [form]

@[simp] theorem form_eq_mapped {role : Role} {m : Mapping} : form role = .mapped m ↔ role = .mapped m := by
  cases role <;> simp [form]

@[simp] theorem forwards_form (role : Role) : Forwards (form role) = Forwards role := by
  cases role <;> rfl

@[simp] theorem inputKeys_form (role : Role) : inputKeys (form role) = inputKeys role := by
  cases role <;> rfl

/-- Roles of one form have the same keys, and both forward or neither does. -/
theorem alike_of_form {role role' : Role} (same : form role = form role') :
    inputKeys role = inputKeys role' ∧ Forwards role = Forwards role' := by
  rw [← inputKeys_form role, ← forwards_form role, same, inputKeys_form, forwards_form]
  exact ⟨rfl, rfl⟩

/-- An edit fits an assembly: a leaf takes the place of a leaf that does the same, a new composite is empty, and nothing
takes the place of the top level or of the part for a geometric property. -/
def Admits (a : Assembly) : Edit → Prop
  | .leaf x l => ∃ l₀, a.leaf? x = some l₀ ∧ form l.role = form l₀.role
  | .add (.composite k) => ∃ g, k = { graph := g }
  | .top _ => a.top = none
  | .geometry name _ => a.geometry[name]? = none
  | _ => True

/-- The smallest change of a context. -/
inductive Move (r : Renderer σ) (c : Context σ) : Context σ → Prop
  | message {e : Event} (message : IsMessage e) : Move r c (c.push e)
  | edit {e : Edit} (fits : Admits c.assembly e) : Move r c (c.edit e)
  | create (type : NodeType) : Move r c (c.created r type)
  | act (a : Action) : Move r c (c.acted r a)

abbrev Moves (r : Renderer σ) : Context σ → Context σ → Prop := ReflTransGen (Move r)

theorem Acts.moves {r : Renderer σ} {P : Action → Prop} {c c' : Context σ} (h : Acts r P c c') : Moves r c c' := by
  induction h with
  | refl => exact .refl
  | act _ _ ih => exact ih.tail (.act _)

theorem CreatesLeaf.moves {r : Renderer σ} {type : NodeType} {role : Role} {settings : List (InputKey × Bound)}
    {name : Option String}
    {c c' : Context σ} {res : Result Leaf} (h : CreatesLeaf r type role settings name c res c') : Moves r c c' := by
  cases h with
  | refused => exact .single (.create _)
  | done _ setup => exact (ReflTransGen.single (.create _)).trans setup.settings.moves
  | undone _ setup => exact ((ReflTransGen.single (.create _)).trans setup.settings.moves).tail (.act _)

theorem admits_hold {a : Assembly} {x : PartId} {l : Leaf} (leaf : a.leaf? x = some l) (hold : Hold) :
    Admits a (.leaf x { l with hold }) :=
  ⟨l, leaf, rfl⟩

theorem moves_released {r : Renderer σ} {x : PartId} {l : Leaf} {c : Context σ} (leaf : c.assembly.leaf? x = some l) :
    Moves r c (released r x l c) := by
  have emptied : Move r c (c.edit (.leaf x { l with hold := .nothing })) := .edit (admits_hold leaf _)
  rw [released]
  cases l.hold.owned? with
  | none => exact .single emptied
  | some h => exact (ReflTransGen.single emptied).tail (.act _)

theorem BindsLeaf.moves {r : Renderer σ} {x : PartId} {l : Leaf} {b : Binding} {c c' : Context σ}
    {res : Result Unit} (h : BindsLeaf r x l b c res c') (leaf : c.assembly.leaf? x = some l) : Moves r c c' := by
  have gone : Moves r c (released r x l c) := moves_released leaf
  have empty : (released r x l c).assembly.leaf? x = some { l with hold := .nothing } := leaf?_released leaf
  cases h with
  | unchanged => exact .refl
  | called => exact .single (.act _)
  | params p' role => exact .single (.edit ⟨l, leaf, by rw [role]; rfl⟩)
  | forwarded => exact .single (.edit (admits_hold leaf _))
  | redirected => exact gone.tail (.edit (admits_hold empty _))
  | emptied => exact gone
  | lost _ _ creation => exact gone.trans creation.moves
  | replaced _ _ creation =>
      refine (gone.trans creation.moves).tail (.edit ?_)
      rw [creation.assembly]
      exact admits_hold empty _

theorem Binds.moves {r : Renderer σ} {x : PartId} {b : Binding} {c c' : Context σ} (h : Binds r x b c c') :
    Moves r c c' := by
  induction h with
  | refl => exact .refl
  | remark _ margin text ih => exact ih.tail (.message (.remark margin text))
  | leaf _ _ leaf binds ih => exact ih.trans (binds.moves leaf)

theorem Step.moves {r : Renderer σ} {c c' : Context σ} (h : Step r c c') : Moves r c c' := by
  cases h with
  | message message => exact .single (.message message)
  | mark mark => cases mark <;> exact .single (.edit trivial)
  | note note => cases note <;> exact .single (.edit trivial)
  | share shares =>
      cases shares with
      | top absent => exact .single (.edit absent)
      | geometry absent => exact .single (.edit absent)
      | freeStanding => exact .single (.edit trivial)
  | composite g => exact .single (.edit ⟨g, rfl⟩)
  | forward => exact .single (.edit trivial)
  | refused _ creation => exact creation.moves
  | create _ _ creation => exact creation.moves.tail (.edit trivial)
  | literal binds => exact binds.moves
  | passes passes =>
      cases passes with
      | nothing => exact .refl
      | handle _ _ binds => exact binds.moves

theorem Steps.moves {r : Renderer σ} {c c' : Context σ} (h : Steps r c c') : Moves r c c' := by
  induction h with
  | refl => exact .refl
  | tail _ step ih => exact ih.trans step.moves

/-- A journal only gets longer. -/
theorem Moves.suffix {r : Renderer σ} {c c' : Context σ} (h : Moves r c c') : c.journal <:+ c'.journal := by
  induction h with
  | refl => exact List.suffix_rfl
  | tail _ move ih =>
      refine ih.trans ?_
      cases move <;> exact List.suffix_cons _ _

/-! ## What an assembly keeps -/

/-- Parts stay what they are, and parts that graphs share stay where they are. -/
structure Extends (a a' : Assembly) : Prop where
  size : a.size ≤ a'.size
  composite : ∀ {id : PartId} {k : Composite}, a.composite? id = some k →
    ∃ k', a'.composite? id = some k' ∧ k'.graph = k.graph
  leaf : ∀ {id : PartId} {l : Leaf}, a.leaf? id = some l → ∃ l', a'.leaf? id = some l'
  child : ∀ {id : PartId} {name : String}, (a.child? id name).isSome → (a'.child? id name).isSome
  top : ∀ {id : PartId}, a.top = some id → a'.top = some id
  geometry : ∀ {name : String} {id : PartId}, a.geometry[name]? = some id → a'.geometry[name]? = some id
  edge : ∀ {id : PartId} {consumer producer : String}, a.HasEdge id consumer producer → a'.HasEdge id consumer producer

namespace Extends

variable {a a₁ a₂ : Assembly}

theorem refl (a : Assembly) : Extends a a :=
  ⟨Nat.le_refl _, fun h => ⟨_, h, rfl⟩, fun h => ⟨_, h⟩, fun h => h, fun h => h, fun h => h, fun h => h⟩

theorem trans (h₁ : Extends a a₁) (h₂ : Extends a₁ a₂) : Extends a a₂ where
  size := Nat.le_trans h₁.size h₂.size
  composite hk := by
    obtain ⟨k₁, hk₁, e₁⟩ := h₁.composite hk
    obtain ⟨k₂, hk₂, e₂⟩ := h₂.composite hk₁
    exact ⟨k₂, hk₂, e₂.trans e₁⟩
  leaf hl := by
    obtain ⟨l₁, hl₁⟩ := h₁.leaf hl
    exact h₂.leaf hl₁
  child hx := h₂.child (h₁.child hx)
  top ht := h₂.top (h₁.top ht)
  geometry hg := h₂.geometry (h₁.geometry hg)
  edge he := h₂.edge (h₁.edge he)

theorem add (a : Assembly) (q : Part) : Extends a (a.apply (.add q)) where
  size := by
    rw [size_add]
    exact Nat.le_succ _
  composite {id k} hk := by
    refine ⟨k, ?_, rfl⟩
    rw [composite?_eq_some, part?_add_of_ne q (Nat.ne_of_lt (lt_size_of_composite? hk)), ← composite?_eq_some]
    exact hk
  leaf {id l} hl := by
    refine ⟨l, ?_⟩
    rw [leaf?_eq_some, part?_add_of_ne q (Nat.ne_of_lt (lt_size_of_leaf? hl)), ← leaf?_eq_some]
    exact hl
  child {id name} hx := by
    obtain ⟨x, hx⟩ := Option.isSome_iff_exists.1 hx
    obtain ⟨k, hk, -⟩ := Option.bind_eq_some_iff.1 hx
    rw [child?_congr, hx]
    · rfl
    · rw [composite?, composite?, part?_add_of_ne q (Nat.ne_of_lt (lt_size_of_composite? hk))]
  top ht := ht
  geometry hg := hg
  edge := by
    rintro id consumer producer ⟨k, hk, mem⟩
    refine ⟨k, ?_, mem⟩
    rw [composite?_eq_some, part?_add_of_ne q (Nat.ne_of_lt (lt_size_of_composite? hk)), ← composite?_eq_some]
    exact hk

theorem modifyComposite (a : Assembly) (x : PartId) {f : Composite → Composite} (hf : ∀ k, (f k).graph = k.graph)
    (hc : ∀ k name, (k.child? name).isSome → ((f k).child? name).isSome)
    (he : ∀ k consumer producer, producer ∈ k.producersOf consumer → producer ∈ (f k).producersOf consumer) :
    Extends a (a.modifyComposite x f) where
  size := Nat.le_of_eq (size_modifyComposite f).symm
  composite {id k} hk := by
    rw [composite?_modifyComposite]
    by_cases h : x = id
    · rw [if_pos h, hk]
      exact ⟨f k, rfl, hf k⟩
    · rw [if_neg h]
      exact ⟨k, hk, rfl⟩
  leaf {id l} hl := ⟨l, (leaf?_modifyComposite f).trans hl⟩
  child {id name} hx := by
    unfold child? at hx ⊢
    rw [composite?_modifyComposite]
    by_cases h : x = id
    · rw [if_pos h]
      cases hk : a.composite? id with
      | none =>
          rw [hk] at hx
          cases hx
      | some k =>
          rw [hk] at hx
          exact hc k name hx
    · rw [if_neg h]
      exact hx
  top ht := ht
  geometry hg := hg
  edge := by
    rintro id consumer producer ⟨k, hk, mem⟩
    rw [HasEdge, composite?_modifyComposite]
    by_cases h : x = id
    · rw [if_pos h, hk]
      exact ⟨f k, rfl, he k consumer producer mem⟩
    · rw [if_neg h]
      exact ⟨k, hk, mem⟩

theorem of_rebinds {S : PartId → Prop} (h : Rebinds S a a₁) : Extends a a₁ where
  size := Nat.le_of_eq h.size.symm
  composite {id k} hk := ⟨k, (h.composite id).trans hk, rfl⟩
  leaf {id l} hl := by
    refine Option.isSome_iff_exists.1 ?_
    rw [h.leaf, hl]
    rfl
  child {id name} hx := by
    rw [child?_congr (h.composite id)]
    exact hx
  top ht := h.top.trans ht
  geometry hg := by
    rw [h.geometry]
    exact hg
  edge := by
    rintro id consumer producer ⟨k, hk, mem⟩
    exact ⟨k, (h.composite id).trans hk, mem⟩

theorem note (a : Assembly) {e : Edit} (h : IsNote e) : Extends a (a.apply e) := by
  cases h with
  | child id n x =>
      refine .modifyComposite a _ (fun _ => rfl) (fun k name hk => ?_) fun _ _ _ mem => mem
      change ((k.children.insert n x)[name]?).isSome
      rw [Std.TreeMap.getElem?_insert]
      split
      · rfl
      · exact hk
  | socket => exact .modifyComposite a _ (fun _ => rfl) (fun _ _ hk => hk) fun _ _ _ mem => mem
  | edge =>
      exact .modifyComposite a _ (fun _ => rfl) (fun _ _ hk => hk) fun _ _ _ mem =>
        Composite.mem_producersOf_note.2 (.inr mem)

theorem share {e : Edit} (h : Shares a e) : Extends a (a.apply e) := by
  cases h with
  | top absent =>
      refine ⟨Nat.le_refl _, fun hk => ⟨_, hk, rfl⟩, fun hl => ⟨_, hl⟩, fun hx => hx, ?_, fun hg => hg, fun he => he⟩
      intro t ht
      rw [absent] at ht
      cases ht
  | @geometry name id absent =>
      refine ⟨Nat.le_refl _, fun hk => ⟨_, hk, rfl⟩, fun hl => ⟨_, hl⟩, fun hx => hx, fun ht => ht, ?_, fun he => he⟩
      intro other x hx
      change (a.geometry.insert name id)[other]? = some x
      rw [Std.TreeMap.getElem?_insert]
      split
      · next h =>
          rw [Std.LawfulEqCmp.compare_eq_iff_eq] at h
          rw [← h, absent] at hx
          cases hx
      · exact hx
  | freeStanding =>
      exact ⟨Nat.le_refl _, fun hk => ⟨_, hk, rfl⟩, fun hl => ⟨_, hl⟩, fun hx => hx, fun ht => ht, fun hg => hg,
        fun he => he⟩

end Extends

/-- What fits an assembly leaves its parts what they are. -/
theorem Admits.extends {a : Assembly} {e : Edit} (fits : Admits a e) : Extends a (a.apply e) := by
  cases e with
  | add q => exact .add a q
  | leaf x l =>
      obtain ⟨l₀, leaf, -⟩ := fits
      exact .of_rebinds (.setLeaf leaf l)
  | child id name x => exact .note a (.child id name x)
  | socket id interface s => exact .note a (.socket id interface s)
  | edge id e => exact .note a (.edge id e)
  | top id => exact .share (.top fits)
  | geometry name id => exact .share (.geometry fits)
  | freeStanding name state => exact .share (.freeStanding name state)
  | began | ended => exact .refl a

theorem Moves.extends {r : Renderer σ} {c c' : Context σ} (h : Moves r c c') : Extends c.assembly c'.assembly := by
  induction h with
  | refl => exact .refl _
  | tail _ move ih =>
      cases move with
      | message | create | act => exact ih
      | edit fits => exact ih.trans fits.extends

theorem Steps.extends {r : Renderer σ} {c c' : Context σ} (h : Steps r c c') : Extends c.assembly c'.assembly :=
  h.moves.extends

/-- A leaf for a node is added to what is there. -/
theorem MakesLeaf.extends {r : Renderer σ} {n : Node} {l : Leaf} {c c' : Context σ} (h : MakesLeaf r n c l c') :
    Extends c.assembly (c'.edit (.add (.leaf l))).assembly :=
  Steps.extends (.single h.steps)

end MaterialGraph.Build
