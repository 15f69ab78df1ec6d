import MaterialGraph.Proofs.Spreading

/-!
# What governs an input

An input of a child is governed if the literal that its node gives, or the node to which it has been connected, has come
to every input that it reaches.

* `Port` : an input that the definition of a node declares, of the part for the node.
* `Connected` : a connection to an input has been made, and this is the node that its producer stood for.
* `Governed` : an input is governed.
* `Undisturbed.governed`, `Spreads.governed` : what leaves an input governed.
-/

namespace MaterialGraph

set_option autoImplicit false

open Build Assembly

variable {σ : Type} {s : Recorder} {C : Catalog} {c c₁ c' : Context Recorder} {x y : PartId} {i j : Input} {h : Handle}
  {v : Bound} {a a' : Assembly}

/-! ## Ports -/

/-- An input of the part for a node. -/
structure Port where
  part : PartId
  node : Node
  input : Input

namespace Port

variable {t u : Port}

/-- The part is the child of a composite for a graph that has the node, and the definition of the node declares the
input. -/
structure IsOf (C : Catalog) (a : Assembly) (p : PartId) (g : Graph) (t : Port) : Prop where
  graph : HasGraph a p g
  node : g.Has t.node
  child : a.child? p t.node.name = some t.part
  declared : ∃ nd, C.nodeDefOf? t.node = some nd ∧ t.input ∈ nd.inputs

/-- The part is the child of some composite for the node, and the definition of the node declares the input. -/
def IsIn (C : Catalog) (a : Assembly) (t : Port) : Prop := ∃ p g, t.IsOf C a p g

/-- If the node itself says something of the input, it names no interface input. -/
def IsOwn (t : Port) : Prop := ∀ e, t.node.input? t.input.name = some e → e.IsPlain

namespace IsOf

variable {p p' : PartId} {g g' : Graph}

theorem isIn (ht : t.IsOf C a p g) : t.IsIn C a := ⟨p, g, ht⟩

theorem graph_eq (ht : t.IsOf C a p g) (hu : u.IsOf C a p g') : g = g' := ht.graph.unique hu.graph

/-- What is of a composite of an assembly was so in an earlier one if its part was the same child there. -/
theorem reflect (ht : t.IsOf C a' p g) (more : Extends a a')
    (back : ∀ {p name}, a'.child? p name = some t.part → a.child? p name = some t.part) : t.IsOf C a p g := by
  obtain ⟨⟨k', composite', rfl⟩, node, child, declared⟩ := ht
  have child := back child
  obtain ⟨k, composite, -⟩ := Option.bind_eq_some_iff.1 child
  obtain ⟨k₁, composite₁, same⟩ := more.composite composite
  cases composite'.symm.trans composite₁
  exact ⟨⟨k, composite, same.symm⟩, node, child, declared⟩

/-- A part is for one node, in one composite. -/
theorem unique (forest : a.Forest) (ht : t.IsOf C a p g) (hu : u.IsOf C a p' g') (part : t.part = u.part) :
    p = p' ∧ t.node = u.node := by
  have child := hu.child
  rw [← part] at child
  obtain ⟨rfl, name⟩ := forest.once ht.child child
  obtain rfl := ht.graph_eq hu
  exact ⟨rfl, ht.node.unique hu.node name⟩

end IsOf

namespace IsIn

theorem isChild (ht : t.IsIn C a) : a.IsChild t.part :=
  let ⟨p, _, there⟩ := ht
  ⟨p, _, there.child⟩

theorem plain (clear : C.IsClear) (ht : t.IsIn C a) : t.input.IsPlain :=
  let ⟨_, _, there⟩ := ht
  let ⟨nd, definition, declared⟩ := there.declared
  (clear t.node nd definition).2 _ declared

/-- Inputs of a part have different names. -/
theorem eq_of_name (clear : C.IsClear) (forest : a.Forest) (ht : t.IsIn C a) (hu : u.IsIn C a) (part : t.part = u.part)
    (name : t.input.name = u.input.name) : t = u := by
  obtain ⟨p, g, ht⟩ := ht
  obtain ⟨p', g', hu⟩ := hu
  obtain ⟨-, node⟩ := ht.unique forest hu part
  obtain ⟨nd, definition, declared⟩ := ht.declared
  obtain ⟨nd', definition', declared'⟩ := hu.declared
  rw [← node, definition] at definition'
  cases definition'
  have input : t.input = u.input := List.inj_on_of_nodup_map (clear t.node nd definition).1 declared declared' name
  cases t
  cases u
  cases part
  cases node
  cases input
  rfl

end IsIn

end Port

/-! ## Connections -/

/-- A connection to an input of a child has been made among the events of a journal, which lists the latest first, and
this is the node that its producer stood for when it was made. -/
def Connected (events : List Event) (x : PartId) (i : Input) (h : Handle) : Prop :=
  ∃ later during before producer output,
    events = later ++ .edited (.ended (.connection producer output x i) true) ::
      (during ++ .edited (.began (.connection producer output x i)) :: before) ∧
    (∀ e ∈ during, e.IsSilent) ∧ x ∈ adopted before ∧
    (replay before.reverse).outputHandle? ((replay before.reverse).size + 1) producer output = some (.ok h)

theorem Connected.adopted {events : List Event} (connected : Connected events x i h) : x ∈ adopted events := by
  obtain ⟨later, during, before, producer, output, rfl, -, adopted, -⟩ := connected
  have all := mem_adopted_append (later ++ .edited (.ended (.connection producer output x i) true) ::
    (during ++ [.edited (.began (.connection producer output x i))])) adopted
  rwa [List.append_assoc, List.cons_append, List.append_assoc, List.singleton_append] at all

/-- An element of a list stands in its first part or in its second. -/
theorem mem_or_split {α : Type} {e : α} {later rest new old : List α} (h : later ++ e :: rest = new ++ old) :
    e ∈ new ∨ ∃ later', old = later' ++ e :: rest := by
  rcases List.append_eq_append_iff.1 h with ⟨between, hnew, hrest⟩ | ⟨between, hlater, hold⟩
  · cases between with
    | nil => exact .inr ⟨[], hrest.symm⟩
    | cons a between =>
        obtain ⟨rfl, -⟩ := List.cons.inj hrest
        exact .inl (by rw [hnew]; simp)
  · exact .inr ⟨between, hold⟩

/-- What comes after the first element without a property is fixed. -/
theorem eq_of_append_cons {α : Type} {P : α → Prop} {a : α} {before before' rest rest' : List α} (none : ¬ P a)
    (all : ∀ e ∈ before, P e) (all' : ∀ e ∈ before', P e) (h : before ++ a :: rest = before' ++ a :: rest') :
    rest = rest' := by
  induction before generalizing before' with
  | nil =>
      cases before' with
      | nil => exact (List.cons.inj h).2
      | cons b before' =>
          obtain ⟨rfl, -⟩ := List.cons.inj h
          exact (none (all' _ List.mem_cons_self)).elim
  | cons b before ih =>
      rw [List.forall_mem_cons] at all
      cases before' with
      | nil =>
          obtain ⟨rfl, -⟩ := List.cons.inj h
          exact (none all.1).elim
      | cons b' before' => exact ih all.2 (List.forall_mem_cons.1 all').2 (List.cons.inj h).2

/-- A connection that is not made among new events has been made before. -/
theorem Connected.of_only (only : Only (fun e => e.connected? ≠ some (x, i)) c c')
    (connected : Connected c'.journal x i h) : Connected c.journal x i h := by
  obtain ⟨later, during, before, producer, output, split, rest⟩ := connected
  obtain ⟨later', split'⟩ := only.suffix_of_cons ⟨later, split.symm⟩ fun other => other rfl
  exact ⟨later', during, before, producer, output, split'.symm, rest⟩

/-- The connection that ends now is the one that began last. -/
theorem Connected.eq_or_of_made {events during before : List Event} {producer : PartId} {output : Option String}
    {res : Option (Result Handle)} {h' : Handle}
    (journal : events = .edited (.ended (.connection producer output x i) true) ::
      (during ++ .edited (.began (.connection producer output x i)) :: before))
    (silent : ∀ e ∈ during, e.IsSilent)
    (found : (replay before.reverse).outputHandle? ((replay before.reverse).size + 1) producer output = res)
    (connected : Connected events x i h') : res = some (.ok h') ∨ Connected before x i h' := by
  obtain ⟨later, during', before', producer', output', split, silent', adopted, found'⟩ := connected
  rw [journal] at split
  cases later with
  | nil =>
      obtain ⟨same, rest⟩ := List.cons.inj split
      cases same
      have here : before = before' := eq_of_append_cons (fun loud => loud) silent silent' rest
      subst here
      exact .inl (found.symm.trans found')
  | cons e later =>
      obtain ⟨-, rest⟩ := List.cons.inj split
      right
      rcases mem_or_split rest.symm with mem | ⟨later', split'⟩
      · exact absurd (silent _ mem) id
      · cases later' with
        | nil => cases split'
        | cons a later' =>
            obtain ⟨-, rfl⟩ := List.cons.inj split'
            exact ⟨later', during', before', producer', output', rfl, silent', adopted, found'⟩

/-! ## Governed inputs -/

/-- An element gives a literal and nothing that could be connected. -/
structure Input.IsLiteral (e : Input) (value : String) : Prop where
  value : e.value? = some value
  nodeName : e.nodeName? = none
  output : e.output? = none
  interface : e.interfaceName? = none
  geomProp : nonEmpty e.defaultGeomProp = none

/-- The element that speaks for a declared input: that of the node, or else the declared one. -/
def Node.elementFor (n : Node) (i : Input) : Input := (n.input? i.name).getD i

/-- What is given for an input pervades what the input reaches: the floats of a literal that the node gives, or else its
definition, and the node to which the input has been connected, unless the node names an interface input. -/
structure Governed (c : Context Recorder) (t : Port) : Prop where
  literal : ∀ {value v}, (t.node.elementFor t.input).IsLiteral value →
    Literal.floats? value (t.node.elementFor t.input).type = some v → Pervades c t.part t.input (.floats v)
  connection : ∀ {h}, t.IsOwn → Connected c.journal t.part t.input h → Pervades c t.part t.input (.node h)

theorem Port.isOwn_of_literal {t : Port} {value : String} (literal : (t.node.elementFor t.input).IsLiteral value) :
    t.IsOwn := by
  intro e named
  rw [Node.elementFor, named, Option.getD_some] at literal
  exact literal.interface

theorem Governed.keep {t : Port} (governed : Governed c t)
    (pervades : t.IsOwn → ∀ v, Pervades c t.part t.input v → Pervades c' t.part t.input v)
    (only : Only (fun e => e.connected? ≠ some (t.part, t.input)) c c') : Governed c' t where
  literal literal floats := pervades (Port.isOwn_of_literal literal) _ (governed.literal literal floats)
  connection own connected := pervades own _ (governed.connection own (connected.of_only only))

theorem Undisturbed.pervades (undisturbed : Undisturbed x c c') (pervades : Pervades c x i v) : Pervades c' x i v := by
  intro y j reaches l m key there role known
  have before : c.assembly.Reaches x i y j := reaches.reflect fun z below => undisturbed.composite below
  rw [undisturbed.leaf before.below] at there
  obtain ⟨h, n, own, live, bound⟩ := pervades y j before l m key there role known
  exact ⟨h, n, own, (undisturbed.node before.below there (by rw [own]; rfl)).trans live, bound⟩

theorem Undisturbed.governed {t : Port} (undisturbed : Undisturbed t.part c c') (governed : Governed c t) :
    Governed c' t :=
  governed.keep (fun _ _ => undisturbed.pervades) (undisturbed.unmarked.mono fun _ he => he t.input)

/-! ## Inputs with different keys -/

/-- The keys of the inputs of an entry are different. -/
theorem Node.CallsFor.keys_nodup {n : Node} {sig : Signature} (h : n.CallsFor sig) : sig.keys.Nodup := by
  cases h with
  | texcoord | normal => exact List.nodup_nil
  | sqrt | image | displacement | swizzle => exact List.nodup_singleton _
  | @entry m category entry =>
      have all : ∀ e ∈ Mapping.table, (e.2.inputs.map Prod.snd).Nodup := by decide
      unfold Mapping.entryFor? at entry
      split at entry
      · cases entry
        decide
      · obtain ⟨before, after, table, -⟩ := List.lookup_eq_some_iff.1 entry
        exact all (n.category, m) (by rw [table]; simp)

/-- Where the keys of a mapping are different, inputs that stand for one key have one name. -/
theorem Mapping.name_eq_of_nodup {m : Mapping} (nodup : (m.inputs.map Prod.snd).Nodup) {key : InputKey}
    {n n' : String} (known : m.key? n = some key) (known' : m.key? n' = some key) : n = n' := by
  have mem {n : String} (known : m.key? n = some key) : (n, key) ∈ m.inputs := by
    obtain ⟨before, after, inputs, -⟩ := List.lookup_eq_some_iff.1 known
    rw [inputs]
    simp
  exact congrArg Prod.fst (List.inj_on_of_nodup_map nodup (mem known) (mem known') rfl)

/-- Inputs of a mapped leaf that stand for one key have one name. -/
theorem name_eq_of_key {id : PartId} {name : String} {l : Leaf} {m : Mapping} {key : InputKey} (keeps : Keeps s c)
    (child : c.assembly.child? id name = some y) (leaf : c.assembly.leaf? y = some l) (role : l.role = .mapped m)
    {n n' : String} (known : m.key? n = some key) (known' : m.key? n' = some key) : n = n' := by
  obtain ⟨k, composite, child⟩ := Option.bind_eq_some_iff.1 child
  obtain ⟨node, -, follows⟩ := keeps.now.child composite child leaf
  have nodup : (m.inputs.map Prod.snd).Nodup := by
    cases follows with
    | surface other | displacement other =>
        rw [role] at other
        cases other
    | native recipe made =>
        have same : m.inputs.map Prod.snd = _ := role ▸ (alike_of_form made).1
        rw [same]
        exact (callsFor_of_recipe recipe).keys_nodup
  exact Mapping.name_eq_of_nodup nodup known known'

/-- Nothing is bound to an input on the way from another: the node names no interface input, or the composite does not
stand below the part of the other. -/
def Port.IsApart (C : Catalog) (a : Assembly) (t u : Port) : Prop :=
  u.IsOwn ∨ ∃ p g, u.IsOf C a p g ∧ ¬ Below a t.part p

/-- An input reaches no input of the name of one that another reaches, unless the way leads through the other or the
other stands below. -/
theorem Port.IsIn.name_ne {z : PartId} {q k : Input} {t u : Port} (proper : Proper s C c) (clear : C.IsClear)
    (ht : t.IsIn C c.assembly) (hu : u.IsIn C c.assembly) (other : t ≠ u) (apart : t.IsApart C c.assembly u)
    (above : Below c.assembly u.part t.part → t.part = u.part) (reached : c.assembly.Reaches t.part t.input z q)
    (reaches : c.assembly.Reaches u.part u.input z k) : q.name ≠ k.name := by
  intro names
  have forest := proper.orderly.forest
  have differ (part : t.part = u.part) : False := by
    rw [part] at reached
    have name := Reaches.name_eq clear proper.wired forest (ht.plain clear) (hu.plain clear) reached reaches names
    exact other (ht.eq_of_name clear forest hu part name)
  rcases forest.below_or_below reached.below reaches.below with below | below
  · rcases reached.through forest below reaches.below with part | ⟨w, i', j', first, passes, rest⟩
    · exact differ part
    · -- the way leads through an input of the part, and that input names an interface input
      obtain ⟨g, n, nd, element, graph, node, child, definition, declared, named, refers⟩ :=
        proper.wired.passesOn (first.plain clear proper.wired (ht.plain clear)) passes
      have through : Port.IsOf C c.assembly w g ⟨u.part, n, j'⟩ := ⟨graph, node, child, nd, definition, declared⟩
      rcases apart with own | ⟨p, g', there, beside⟩
      · have name :=
          Reaches.name_eq clear proper.wired forest (through.isIn.plain clear) (hu.plain clear) rest reaches names
        have same : ⟨u.part, n, j'⟩ = u := through.isIn.eq_of_name clear forest hu rfl name
        rw [← same] at own
        have plain : element.interfaceName? = none := own element named
        rw [refers] at plain
        cases plain
      · obtain ⟨rfl, -⟩ := through.unique forest there rfl
        exact beside first.below
  · exact differ (above below)

/-- What spreads from an input leaves what pervades what another reaches, except on the way and above. -/
theorem Build.Spreads.pervades {E : Env Recorder} {b : Binding} {t u : Port} (recording : E.renderer = Recorder.renderer)
    (proper : Proper s C c) (clear : C.IsClear) (ht : t.IsIn C c.assembly) (hu : u.IsIn C c.assembly) (other : t ≠ u)
    (apart : t.IsApart C c.assembly u) (above : Below c.assembly u.part t.part → t.part = u.part)
    (spreads : Spreads E t.part t.input b c c') (pervades : Pervades c u.part u.input v) :
    Pervades c' u.part u.input v := by
  intro z k reaches
  have before : c.assembly.Reaches u.part u.input z k := reaches.congr fun y => (spreads.composite y).symm
  refine spreads.shown recording proper.keeps proper.equipped ht.isChild (pervades z k before) ?_
  intro q l m key reached leaf role known known'
  obtain ⟨id, n, child⟩ := isChild_of_below ht.isChild reached.below
  have name : q.name = k.name := name_eq_of_key proper.keeps child leaf role known known'
  exact (ht.name_ne proper clear hu other apart above reached before name).elim

end MaterialGraph
