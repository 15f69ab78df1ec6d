import MaterialGraph.Proofs.Build.Ends
import MaterialGraph.Proofs.Governing

/-!
# Inputs that wait

While a composite builds children, their inputs are governed, except those that have not been read yet and those that
wait for connections.

* `IsGiven`, `IsOpened` : the literal that speaks for an input in its composite is bound; a socket has been opened for it.
* `Tended` : the inputs of all children from some number on are governed and given, or they wait and are not connected
  yet; and those that have been read are opened.
* `Fosters` : what happens elsewhere leaves all children alone and leaves the inputs of new ones governed.
* `Stage` : a composite on the way to give a child, while inputs of its children wait.
* `Stage.fosters`, `Stage.note`, `Stage.spreads`, `after_connect_stage` : what a composite does on the way.
-/

namespace MaterialGraph

set_option autoImplicit false

open Build Assembly

variable {s : Recorder} {C : Catalog} {c c₁ c' : Context Recorder} {p x : PartId} {n : Nat} {g : Graph} {t : Port}
  {us us' ts ts' : List Port}

/-! ## What is given in a composite -/

/-- The literal that speaks for an input in a composite for a graph, unless something is bound to the composite, pervades
what the input reaches. -/
def IsGiven (C : Catalog) (g : Graph) (c : Context Recorder) (t : Port) : Prop :=
  ∀ value v, (C.elementOf g t.node t.input).IsLiteral value →
    Literal.floats? value (C.elementOf g t.node t.input).type = some v → Pervades c t.part t.input (.floats v)

/-- If the node names an interface input, a socket has been opened there in the composite. -/
def IsOpened (p : PartId) (c : Context Recorder) (t : Port) : Prop :=
  ∀ element interface, t.node.input? t.input.name = some element → element.interfaceName? = some interface →
    .edited (.socket p interface ⟨t.node.name, t.input⟩) ∈ c.journal

theorem Port.IsOwn.elementOf (own : t.IsOwn) (C : Catalog) (g : Graph) :
    C.elementOf g t.node t.input = t.node.elementFor t.input := by
  rw [Catalog.elementOf, Node.elementFor]
  cases named : t.node.input? t.input.name with
  | none => rfl
  | some e =>
      have plain : e.interfaceName? = none := own e named
      dsimp only
      rw [plain, Option.getD_some]

/-- A literal that the node or its definition gives is what speaks for the input. -/
theorem IsGiven.governed (given : IsGiven C g c t)
    (connection : ∀ {h}, t.IsOwn → Connected c.journal t.part t.input h → Pervades c t.part t.input (.node h)) :
    Governed c t where
  literal {value v} literal floats := by
    have same := (Port.isOwn_of_literal literal).elementOf C g
    exact given value v (same ▸ literal) (same ▸ floats)
  connection := connection

theorem IsGiven.keep (given : IsGiven C g c t)
    (pervades : ∀ v, Pervades c t.part t.input v → Pervades c' t.part t.input v) : IsGiven C g c' t :=
  fun value v literal floats => pervades _ (given value v literal floats)

theorem Build.Only.isOpened {P : Event → Prop} (only : Only P c c') (opened : IsOpened p c t) : IsOpened p c' t := by
  obtain ⟨new, journal, -⟩ := only
  intro element interface named refers
  rw [journal]
  exact List.mem_append_right _ (opened element interface named refers)

/-! ## Inputs of children -/

/-- The inputs of the children numbered from `n` on are governed, and given in the composites below `n`, except those
that wait, which are not connected: `us` have not been read, so no sockets have been opened for them, and `ts` have. -/
structure Tended (C : Catalog) (n : Nat) (us ts : List Port) (c : Context Recorder) : Prop where
  governed : ∀ {t : Port}, t.IsIn C c.assembly → n ≤ t.part → t ∉ us ++ ts → Governed c t
  given : ∀ {t : Port} {p g}, t.IsOf C c.assembly p g → p < n → n ≤ t.part → t ∉ us ++ ts → IsGiven C g c t
  opened : ∀ {t : Port} {p g}, t.IsOf C c.assembly p g → n ≤ t.part → t ∉ us → IsOpened p c t
  waiting : ∀ {t : Port}, t ∈ us ++ ts → ∀ h, ¬ Connected c.journal t.part t.input h

namespace Tended

/-- There are no inputs of children of such numbers. -/
theorem vacuous (none : ∀ {p name x}, c.assembly.child? p name = some x → ¬ n ≤ x) : Tended C n [] [] c where
  governed ht hn := let ⟨_, _, child⟩ := ht.isChild; absurd hn (none child)
  given ht _ hn := absurd hn (none ht.child)
  opened ht hn := absurd hn (none ht.child)
  waiting mem := absurd mem List.not_mem_nil

/-- There are no children of such numbers. -/
theorem none (orderly : Orderly c) (size : c.assembly.size ≤ n) : Tended C n [] [] c :=
  .vacuous fun child hn => absurd (Nat.le_trans size hn) (Nat.not_le.2 (orderly.forest.descends child).2)

/-- The children stay the same, so there are no new ones. -/
theorem of_same (orderly : Orderly c) (same : ∀ p name, c'.assembly.child? p name = c.assembly.child? p name) :
    Tended C c.assembly.size [] [] c' :=
  .vacuous fun child hn => absurd hn (Nat.not_le.2 (orderly.forest.descends ((same _ _).symm.trans child)).2)

/-- Nothing happens to the children, and there are no new ones. -/
theorem undisturbed (tended : Tended C n us ts c) (there : ∀ t ∈ us ++ ts, n ≤ t.part ∧ t.IsIn C c.assembly)
    (back : ∀ {t : Port} {p g}, t.IsOf C c'.assembly p g → n ≤ t.part → t.IsOf C c.assembly p g)
    (left : ∀ {t : Port}, t.IsIn C c.assembly → n ≤ t.part → Undisturbed t.part c c') : Tended C n us ts c' where
  governed ht hn mem :=
    let ⟨_, _, ht⟩ := ht
    have before := (back ht hn).isIn
    (left before hn).governed (tended.governed before hn mem)
  given ht hp hn mem :=
    have before := back ht hn
    (tended.given before hp hn mem).keep fun _ => (left before.isIn hn).pervades
  opened ht hn mem :=
    have before := back ht hn
    (left before.isIn hn).unmarked.isOpened (tended.opened before hn mem)
  waiting {t} mem h connected :=
    tended.waiting mem h (connected.of_only
      ((left (there t mem).2 (there t mem).1).unmarked.mono fun _ he => he t.input))

/-- An input waits no more. -/
theorem settle (tended : Tended C n us (t :: ts) c) (forest : c.assembly.Forest) (there : t.IsOf C c.assembly p g)
    (given : IsGiven C g c t)
    (connection : ∀ {h}, t.IsOwn → Connected c.journal t.part t.input h → Pervades c t.part t.input (.node h)) :
    Tended C n us ts c := by
  have open' {u : Port} (same : u ≠ t) (mem : u ∉ us ++ ts) : u ∉ us ++ t :: ts := fun h =>
    (List.mem_append.1 h).elim (fun h => mem (List.mem_append_left _ h)) fun h =>
      (List.mem_cons.1 h).elim same fun h => mem (List.mem_append_right _ h)
  refine ⟨fun {u} hu hn mem => ?_, fun {u} _ _ hu hp hn mem => ?_, tended.opened, fun mem => tended.waiting ?_⟩
  · by_cases same : u = t
    · exact same ▸ given.governed connection
    · exact tended.governed hu hn (open' same mem)
  · by_cases same : u = t
    · subst same
      obtain ⟨rfl, -⟩ := hu.unique forest there rfl
      obtain rfl := hu.graph_eq there
      exact given
    · exact tended.given hu hp hn (open' same mem)
  · exact (List.mem_append.1 mem).elim (List.mem_append_left _)
      fun h => List.mem_append_right _ (List.mem_cons_of_mem _ h)

/-- A socket has been opened for an input, and perhaps it still waits for a connection. -/
theorem read (tended : Tended C n (t :: us) ts c) (forest : c.assembly.Forest) (there : t.IsOf C c.assembly p g)
    (opened : IsOpened p c t) : Tended C n us (t :: ts) c := by
  have same (u : Port) : u ∈ us ++ t :: ts ↔ u ∈ t :: us ++ ts := List.perm_middle.mem_iff
  refine ⟨fun hu hn mem => tended.governed hu hn (mt (same _).2 mem),
    fun hu hp hn mem => tended.given hu hp hn (mt (same _).2 mem), fun {u} _ _ hu hn mem => ?_,
    fun mem => tended.waiting ((same _).1 mem)⟩
  by_cases eq : u = t
  · subst eq
    obtain ⟨rfl, -⟩ := hu.unique forest there rfl
    exact opened
  · exact tended.opened hu hn fun h => (List.mem_cons.1 h).elim eq mem

theorem perm (tended : Tended C n us ts c) (h : ts.Perm ts') : Tended C n us ts' c :=
  have same (t : Port) : t ∈ us ++ ts ↔ t ∈ us ++ ts' := (h.append_left us).mem_iff
  ⟨fun ht hn mem => tended.governed ht hn (mt (same _).1 mem),
    fun ht hp hn mem => tended.given ht hp hn (mt (same _).1 mem), tended.opened,
    fun mem => tended.waiting ((same _).2 mem)⟩

end Tended

/-! ## What happens elsewhere -/

/-- What happens elsewhere leaves the children alone, makes no other old part a child, and leaves the inputs of new
children governed. -/
structure Fosters (C : Catalog) (c c' : Context Recorder) : Prop where
  more : Extends c.assembly c'.assembly
  kept : ∀ {p x name}, c.assembly.child? p name = some x → c'.assembly.child? p name = some x
  back : ∀ {p x name}, x < c.assembly.size → c'.assembly.child? p name = some x → c.assembly.child? p name = some x
  old : ∀ x, c.assembly.IsChild x → Undisturbed x c c'
  fresh : Tended C c.assembly.size [] [] c'

theorem Tended.fosters (tended : Tended C n us ts c) (size : n ≤ c.assembly.size)
    (there : ∀ t ∈ us ++ ts, t.IsIn C c.assembly) (fosters : Fosters C c c') : Tended C n us ts c' := by
  -- an input is of a child that was there, or of a new one
  have former {t : Port} {p : PartId} {g : Graph} (ht : t.IsOf C c'.assembly p g) (lt : t.part < c.assembly.size) :
      t.IsOf C c.assembly p g := ht.reflect fosters.more (fosters.back lt)
  refine ⟨fun {t} ht hn mem => ?_, fun {t} _ _ ht hp hn mem => ?_, fun {t} _ _ ht hn mem => ?_,
    fun {t} mem h connected => ?_⟩
  · rcases Nat.lt_or_ge t.part c.assembly.size with lt | new
    · obtain ⟨_, _, ht⟩ := ht
      have before := (former ht lt).isIn
      exact (fosters.old t.part before.isChild).governed (tended.governed before hn mem)
    · exact fosters.fresh.governed ht new List.not_mem_nil
  · rcases Nat.lt_or_ge t.part c.assembly.size with lt | new
    · have before := former ht lt
      exact (tended.given before hp hn mem).keep fun _ => (fosters.old t.part before.isIn.isChild).pervades
    · exact fosters.fresh.given ht (Nat.lt_of_lt_of_le hp size) new List.not_mem_nil
  · rcases Nat.lt_or_ge t.part c.assembly.size with lt | new
    · have before := former ht lt
      exact (fosters.old t.part before.isIn.isChild).unmarked.isOpened (tended.opened before hn mem)
    · exact fosters.fresh.opened ht new List.not_mem_nil
  · have only := (fosters.old t.part (there t mem).isChild).unmarked
    exact tended.waiting mem h (connected.of_only (only.mono fun _ he => he t.input))

namespace Fosters

theorem trans (h₁ : Fosters C c c₁) (h₂ : Fosters C c₁ c') : Fosters C c c' where
  more := h₁.more.trans h₂.more
  kept child := h₂.kept (h₁.kept child)
  back lt child := h₁.back lt (h₂.back (Nat.lt_of_lt_of_le lt h₁.more.size) child)
  old x child :=
    have there : c₁.assembly.IsChild x := let ⟨p, name, child⟩ := child; ⟨p, name, h₁.kept child⟩
    (h₁.old x child).trans (h₂.old x there)
  fresh := h₁.fresh.fosters h₁.more.size (fun _ mem => absurd mem List.not_mem_nil) h₂

/-- The children stay the same. -/
theorem of_same (orderly : Orderly c) (more : Extends c.assembly c'.assembly)
    (same : ∀ p name, c'.assembly.child? p name = c.assembly.child? p name)
    (old : ∀ x, c.assembly.IsChild x → Undisturbed x c c') : Fosters C c c' where
  more := more
  kept child := (same _ _).trans child
  back _ child := (same _ _).symm.trans child
  old := old
  fresh := .of_same orderly same

theorem refl (orderly : Orderly c) : Fosters C c c :=
  .of_same orderly (.refl _) (fun _ _ => rfl) fun x _ => .refl x c

theorem message {e : Event} (orderly : Orderly c) (message : IsMessage e) : Fosters C c (c.push e) :=
  .of_same orderly (.refl _) (fun _ _ => rfl) fun _ _ => .message message

/-- An edit of no part. -/
theorem aside {e : Edit} (orderly : Orderly c) (more : Extends c.assembly (c.assembly.apply e))
    (parts : (c.assembly.apply e).parts = c.assembly.parts) (unmarked : (Event.edited e).connected? = none) :
    Fosters C c (c.edit e) :=
  .of_same orderly more
    (fun _ _ => by rw [Context.edit_assembly, child?, child?, composite?, composite?, part?, part?, parts])
    fun _ _ => .aside parts unmarked

theorem addLeaf (orderly : Orderly c) (l : Leaf) : Fosters C c (c.edit (.add (.leaf l))) :=
  .of_same orderly (.add _ _) (fun _ name => child?_add_leaf l name) fun _ child =>
    .add (fun _ below => lt_size_of_below orderly.forest child below) _

theorem addComposite (orderly : Orderly c) (g : Graph) : Fosters C c (c.edit (.add (.composite { graph := g }))) :=
  .of_same orderly (.add _ _) (fun _ name => child?_add_composite g name) fun _ child =>
    .add (fun _ below => lt_size_of_below orderly.forest child below) _

theorem creates {type : NodeType} {role : Role} {settings : List (InputKey × Bound)} {name : Option String}
    {res : Result Leaf} (proper : Proper s C c)
    (creation : CreatesLeaf Recorder.renderer type role settings name c res c') : Fosters C c c' :=
  .of_same proper.orderly (by rw [creation.assembly]; exact .refl _) (fun _ _ => by rw [creation.assembly])
    fun _ _ => .creates proper.keeps creation

theorem starts {g : NodeGraph} (orderly : Orderly c) (starts : Starts g c x c') : Fosters C c c' := by
  cases starts with
  | first =>
      have added : Fosters C c (c.edit (.add (.composite { graph := .named g }))) := .addComposite orderly _
      exact added.trans (.aside (Grows.addComposite orderly _ 0).orderly (.share (.freeStanding _ _)) rfl rfl)
  | again => exact .aside orderly (.share (.freeStanding _ _)) rfl rfl

/-- A run that sets no inputs, in a composite that stands below no child. -/
theorem of_run {W : Env Recorder} {id m : PartId} (recording : W.renderer = Recorder.renderer) (lt : id < m)
    (run : Run W .asking id m c c') (proper : Proper s W.catalog c)
    (outside : ∀ x, c.assembly.IsChild x → id < x ∨ Alone c id) (fresh : Tended W.catalog c.assembly.size [] [] c') :
    Fosters W.catalog c c' where
  more := run.steps.extends
  kept := run.keeps
  back lt child := (run.grows proper.orderly).child?_of_lt proper.orderly run.suffix lt child
  old := fun x child =>
    let ⟨p, name, there⟩ := child
    run.undisturbed recording proper (p := p) ⟨⟨name, there⟩, .inr ⟨rfl, lt⟩, outside x child⟩
  fresh := fresh

end Fosters

/-! ## On the way to a child -/

/-- What speaks for the input in a composite for a graph is more than a literal, or none. -/
def Port.IsVain (C : Catalog) (g : Graph) (t : Port) : Prop :=
  ∀ value, ¬ (C.elementOf g t.node t.input).IsLiteral value

/-- An input that waits belongs to a new child of a composite. -/
structure Port.Waits (C : Catalog) (id : PartId) (n : Nat) (g : Graph) (c : Context Recorder) (t : Port) : Prop where
  given : Given id n c t.node.name t.part
  node : g.Has t.node
  declared : ∃ nd, C.nodeDefOf? t.node = some nd ∧ t.input ∈ nd.inputs

/-- A composite for a graph builds children, which are numbered from `n` on, and some of their inputs wait. -/
structure Stage (W : Env Recorder) (s : Recorder) (id : PartId) (n : Nat) (g : Graph) (us ts : List Port)
    (c : Context Recorder) : Prop where
  proper : Proper s W.catalog c
  graph : HasGraph c.assembly id g
  above : id < n
  size : n ≤ c.assembly.size
  nodup : (us ++ ts).Nodup
  waits : ∀ t ∈ us ++ ts, t.Waits W.catalog id n g c
  tended : Tended W.catalog n us ts c

theorem Proper.binds {b : Binding} (proper : Proper s C c) (binds : Binds Recorder.renderer x b c c') : Proper s C c' where
  keeps := binds.keeps proper.keeps
  orderly := (binds.grows proper.orderly 0).orderly
  equipped := binds.equipped proper.equipped
  wired := proper.wired.rebinds binds.rebinds

theorem Proper.edge (proper : Proper s C c) (id : PartId) (e : Edge) : Proper s C (c.edit (.edge id e)) where
  keeps := proper.keeps.quiet (.note _ (.edge _ _)) (fun _ => leaf?_edge _) fun _ => child?_edge _
  orderly := (Grows.edge proper.orderly id e 0).orderly
  equipped := proper.equipped.congr fun _ => leaf?_edge _
  wired := proper.wired.edge id e

namespace Stage

variable {W : Env Recorder} {id : PartId}

theorem isOf (stage : Stage W s id n g us ts c) (mem : t ∈ us ++ ts) : t.IsOf W.catalog c.assembly id g :=
  let ⟨given, node, declared⟩ := stage.waits t mem
  ⟨stage.graph, node, given.1, declared⟩

/-- No other new child stands above one of the composite. -/
theorem apart (stage : Stage W s id n g us ts c) (mem : t ∈ us ++ ts) {x : PartId} (hx : n ≤ x)
    (below : Below c.assembly x t.part) : t.part = x := by
  cases below with
  | refl => rfl
  | child above child =>
      obtain ⟨rfl, -⟩ := stage.proper.orderly.forest.once child (stage.waits t mem).given.1
      have le := above.le stage.proper.orderly.forest.descends
      exact absurd stage.above (Nat.not_lt.2 (Nat.le_trans hx le))

/-- No composite of a smaller number stands below a new child. -/
theorem not_below (stage : Stage W s id n g us ts c) (hx : n ≤ x) (hp : p < n) : ¬ Below c.assembly x p := fun below =>
  absurd hp (Nat.not_lt.2 (Nat.le_trans hx (below.le stage.proper.orderly.forest.descends)))

/-- The composite goes on, and perhaps less waits. -/
theorem next (stage : Stage W s id n g us ts c) (proper : Proper s W.catalog c') (more : Extends c.assembly c'.assembly)
    (kept : ∀ {p x name}, c.assembly.child? p name = some x → c'.assembly.child? p name = some x)
    (fewer : (us' ++ ts').Sublist (us ++ ts)) (tended : Tended W.catalog n us' ts' c') :
    Stage W s id n g us' ts' c' where
  proper := proper
  graph := stage.graph.extends more
  above := stage.above
  size := Nat.le_trans stage.size more.size
  nodup := fewer.nodup stage.nodup
  waits t mem :=
    let ⟨given, node, declared⟩ := stage.waits t (fewer.subset mem)
    ⟨⟨kept given.1, given.2⟩, node, declared⟩
  tended := tended

theorem fosters (stage : Stage W s id n g us ts c) (fosters : Fosters W.catalog c c') (proper : Proper s W.catalog c') :
    Stage W s id n g us ts c' :=
  stage.next proper fosters.more fosters.kept (.refl _)
    (stage.tended.fosters stage.size (fun _ mem => (stage.isOf mem).isIn) fosters)

theorem message {e : Event} (stage : Stage W s id n g us ts c) (message : IsMessage e) :
    Stage W s id n g us ts (c.push e) :=
  stage.fosters (.message stage.proper.orderly message) (stage.proper.message message)

theorem mem_waiting : t ∈ us ++ t :: ts := List.mem_append_right _ List.mem_cons_self

theorem settle (stage : Stage W s id n g us (t :: ts) c) (given : IsGiven W.catalog g c t)
    (connection : ∀ {h}, t.IsOwn → Connected c.journal t.part t.input h → Pervades c t.part t.input (.node h)) :
    Stage W s id n g us ts c :=
  stage.next stage.proper (.refl _) (fun child => child) ((List.Sublist.refl us).append (List.sublist_cons_self t ts))
    (stage.tended.settle stage.proper.orderly.forest (stage.isOf mem_waiting) given connection)

/-- An input for which nothing has been found waits no more. -/
theorem giveUp (stage : Stage W s id n g us (t :: ts) c) (vain : t.IsVain W.catalog g) : Stage W s id n g us ts c :=
  stage.settle (fun value _ literal _ => (vain value literal).elim)
    fun _ connected => (stage.tended.waiting mem_waiting _ connected).elim

/-- An input has been read. -/
theorem read (stage : Stage W s id n g (t :: us) ts c) (opened : IsOpened id c t) : Stage W s id n g us (t :: ts) c where
  proper := stage.proper
  graph := stage.graph
  above := stage.above
  size := stage.size
  nodup := List.perm_middle.nodup_iff.2 stage.nodup
  waits u mem := stage.waits u (List.perm_middle.mem_iff.1 mem)
  tended := stage.tended.read stage.proper.orderly.forest (stage.isOf (List.mem_append_left _ List.mem_cons_self)) opened

theorem perm (stage : Stage W s id n g us ts c) (h : ts.Perm ts') : Stage W s id n g us ts' c where
  proper := stage.proper
  graph := stage.graph
  above := stage.above
  size := stage.size
  nodup := (h.append_left us).nodup_iff.1 stage.nodup
  waits t mem := stage.waits t ((h.append_left us).mem_iff.2 mem)
  tended := stage.tended.perm h

/-- The composite notes something that changes no child. -/
theorem note {e : Edit} {f : Composite → Composite} (stage : Stage W s id n g us ts c) (note : IsNote e)
    (apply : c.assembly.apply e = c.assembly.modifyComposite id f)
    (same : ∀ p name, (c.assembly.apply e).child? p name = c.assembly.child? p name)
    (proper : Proper s W.catalog (c.edit e)) : Stage W s id n g us ts (c.edit e) := by
  have more : Extends c.assembly (c.edit e).assembly := .note _ note
  have unmarked : (Event.edited e).connected? = none := by cases note <;> rfl
  refine stage.next proper more (fun child => (same _ _).trans child) (.refl _) ?_
  refine stage.tended.undisturbed (fun t mem => ⟨(stage.waits t mem).given.2, (stage.isOf mem).isIn⟩) ?_ ?_
  · exact fun ht _ => ht.reflect more fun child => (same _ _).symm.trans child
  · exact fun _ hn => .note apply (stage.not_below hn stage.above) unmarked

theorem socket (stage : Stage W s id n g us ts c) (mem : t ∈ us ++ ts) {element : Input} {interface : String}
    (named : t.node.input? t.input.name = some element) (refers : element.interfaceName? = some interface)
    (recording : W.renderer = Recorder.renderer) :
    Stage W s id n g us ts (c.edit (.socket id interface ⟨t.node.name, t.input⟩)) := by
  obtain ⟨given, node, nd, definition, declared⟩ := stage.waits t mem
  have run : Run W .giving id n c (c.edit (.socket id interface ⟨t.node.name, t.input⟩)) :=
    .socket stage.graph node (by rw [given.1]; rfl) definition declared named refers
  exact stage.note (.socket _ _ _) rfl (fun _ name => child?_socket _ _ name) (.run recording run stage.proper)

theorem edge (stage : Stage W s id n g us ts c) (e : Edge) : Stage W s id n g us ts (c.edit (.edge id e)) :=
  stage.note (.edge _ _) rfl (fun _ name => child?_edge e name) (stage.proper.edge id e)

/-- What spreads from an input that waits leaves it waiting. -/
theorem spreads {E : Env Recorder} {b : Binding} (stage : Stage W s id n g us ts c) (mem : t ∈ us ++ ts)
    (clear : W.catalog.IsClear) (recording : E.renderer = Recorder.renderer)
    (spreads : Spreads E t.part t.input b c c') : Stage W s id n g us ts c' := by
  have binds : Binds Recorder.renderer t.part b c c' := recording ▸ spreads.binds
  have same (p : PartId) (name : String) : c'.assembly.child? p name = c.assembly.child? p name :=
    child?_congr (spreads.composite p) name
  have more : Extends c.assembly c'.assembly := .of_rebinds binds.rebinds
  have only (u : Port) : Only (fun e => e.connected? ≠ some (u.part, u.input)) c c' :=
    binds.silent.mono fun e he => by simp [he.connected?]
  have back {u : Port} {p : PartId} {g : Graph} (hu : u.IsOf W.catalog c'.assembly p g) :
      u.IsOf W.catalog c.assembly p g := hu.reflect more fun child => (same _ _).symm.trans child
  have pervades {u : Port} {v : Bound} (hu : u.IsIn W.catalog c.assembly) (hn : n ≤ u.part) (open' : u ∉ us ++ ts)
      (apart : t.IsApart W.catalog c.assembly u) (pervades : Pervades c u.part u.input v) :
      Pervades c' u.part u.input v := by
    have other : t ≠ u := by
      rintro rfl
      exact open' mem
    exact spreads.pervades recording stage.proper clear (stage.isOf mem).isIn hu other apart (stage.apart mem hn) pervades
  refine stage.next (stage.proper.binds binds) more (fun child => (same _ _).trans child) (.refl _) ⟨?_, ?_, ?_, ?_⟩
  · rintro u ⟨_, _, hu⟩ hn open'
    have before := (back hu).isIn
    exact (stage.tended.governed before hn open').keep (fun own _ => pervades before hn open' (.inl own)) (only u)
  · intro u p g' hu hp hn open'
    have apart : t.IsApart W.catalog c.assembly u :=
      .inr ⟨p, g', back hu, stage.not_below (stage.waits t mem).given.2 hp⟩
    exact (stage.tended.given (back hu) hp hn open').keep fun _ => pervades (back hu).isIn hn open' apart
  · exact fun {u} _ _ hu hn open' => (only u).isOpened (stage.tended.opened (back hu) hn open')
  · exact fun {u} hu h connected => stage.tended.waiting hu h (connected.of_only (only u))

theorem mark {e : Edit} (stage : Stage W s id n g us ts c) (mark : IsMark e)
    (unmarked : (Event.edited e).connected? = none) : Stage W s id n g us ts (c.edit e) := by
  refine stage.fosters (.aside stage.proper.orderly ?_ ?_ unmarked) (stage.proper.mark mark)
  · cases mark <;> exact .refl _
  · cases mark <;> rfl

/-- An input is connected and waits no more. -/
theorem connected {during : List Event} {producer : PartId} {output : Option String} {h : Handle}
    (stage : Stage W s id n g us (t :: ts) c) (clear : W.catalog.IsClear) (vain : t.IsVain W.catalog g)
    (found : c.assembly.outputHandle? (c.assembly.size + 1) producer output = some (.ok h))
    (bound : Stage W s id n g us (t :: ts) c₁)
    (journal : c₁.journal = during ++ .edited (.began (.connection producer output t.part t.input)) :: c.journal)
    (silent : ∀ e ∈ during, e.IsSilent) (pervades : Pervades c₁ t.part t.input (.node h)) :
    Stage W s id n g us ts (c₁.edit (.ended (.connection producer output t.part t.input) true)) := by
  have forest := bound.proper.orderly.forest
  have only {P : Event → Prop} (he : P (.edited (.ended (.connection producer output t.part t.input) true))) :
      Only P c₁ (c₁.edit (.ended (.connection producer output t.part t.input) true)) := .event rfl he
  have others {u : Port} (hu : u.IsIn W.catalog c₁.assembly) (other : u ≠ t) :
      (Event.edited (.ended (.connection producer output t.part t.input) true)).connected? ≠ some (u.part, u.input) := by
    refine fun same => other ?_
    obtain ⟨part, input⟩ := Prod.mk.inj (Option.some.inj same)
    exact hu.eq_of_name clear forest (bound.isOf mem_waiting).isIn part.symm (congrArg Input.name input.symm)
  have open' {u : Port} (other : u ≠ t) (mem : u ∉ us ++ ts) : u ∉ us ++ t :: ts := fun h =>
    (List.mem_cons.1 (List.perm_middle.mem_iff.1 h)).elim other mem
  refine bound.next (bound.proper.mark (.ended _ _)) (.refl _) (fun child => child)
    ((List.Sublist.refl us).append (List.sublist_cons_self t ts)) ⟨?_, ?_, ?_, ?_⟩
  · intro u hu hn mem
    by_cases same : u = t
    · subst same
      have given : IsGiven W.catalog g (c₁.edit (.ended (.connection producer output u.part u.input) true)) u :=
        fun value _ literal _ => (vain value literal).elim
      refine given.governed fun _ connected => ?_
      rw [← stage.proper.orderly.faithful.assembly] at found
      rcases connected.eq_or_of_made (congrArg _ journal) silent found with same | before
      · cases same
        exact pervades
      · exact (stage.tended.waiting mem_waiting _ before).elim
    · exact (bound.tended.governed hu hn (open' same mem)).keep (fun _ _ pervades => pervades) (only (others hu same))
  · intro u p g' hu hp hn mem
    by_cases same : u = t
    · subst same
      obtain ⟨rfl, -⟩ := hu.unique forest (bound.isOf mem_waiting) rfl
      obtain rfl := hu.graph_eq (bound.isOf mem_waiting)
      exact fun value _ literal _ => (vain value literal).elim
    · exact (bound.tended.given hu hp hn (open' same mem)).keep fun _ pervades => pervades
  · exact fun hu hn mem => (only trivial : Only (fun _ => True) c₁ _).isOpened (bound.tended.opened hu hn mem)
  · intro u hu h connected
    have other : u ≠ t := by
      rintro rfl
      exact (List.nodup_cons.1 (List.perm_middle.nodup_iff.1 stage.nodup)).1 hu
    have hu : u ∈ us ++ t :: ts := List.perm_middle.mem_iff.2 (List.mem_cons_of_mem _ hu)
    exact bound.tended.waiting hu h (connected.of_only (only (others (bound.isOf hu).isIn other)))

end Stage

/-- To connect an input that waits lets it wait no more, if the connection is made. -/
theorem after_connect_stage {W : Env Recorder} {id : PartId} {q : Place} {producer : PartId} {output : Option String}
    (stage : Stage W s id n g us (t :: ts) c) (clear : W.catalog.IsClear) (recording : W.renderer = Recorder.renderer)
    (vain : t.IsVain W.catalog g) :
    After (connect producer output t.part t.input) (W.at q) c fun res c' =>
      Stage W s id n g us (if res.isOk then ts else t :: ts) c' := by
  have mem : t ∈ us ++ t :: ts := Stage.mem_waiting
  have begun := stage.mark (.began (.connection producer output t.part t.input)) rfl
  rw [connect, after_asTask, after_andThen, outputHandle, after_bind, after_assembly, after_bind]
  intro fuel c₁ fueled
  cases fueled
  rw [after_ofOption]
  intro res found
  refine ⟨?_, ?_⟩
  · rintro h rfl
    refine (after_bindInput_pervades (E := W.at q) recording begun.proper.keeps begun.proper.equipped
      (begun.isOf mem).isIn.isChild).mono ?_
    rintro res c₂ ⟨spreads, pervades⟩
    have bound := begun.spreads (E := W.at q) mem clear recording spreads
    cases res with
    | error e => exact bound.mark (.ended _ _) rfl
    | ok =>
        obtain ⟨during, journal, silent⟩ := spreads.binds.silent
        exact stage.connected clear vain found bound journal silent (pervades _ (.node h) fun _ => rfl)
  · rintro e rfl
    exact begun.mark (.ended _ _) rfl

end MaterialGraph
