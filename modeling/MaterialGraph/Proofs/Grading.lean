import MaterialGraph.Proofs.Handover
import MaterialGraph.Proofs.Precedence
import MaterialGraph.Proofs.Refusals
import MaterialGraph.Proofs.Seclusion

/-!
# Grades of nodes

The nodes that leaves own are graded by their leaves: whatever a node gets for an input is owned by a leaf that comes
after its own, in an order that whoever makes connections heeds.

* `Dated` : what leaves hold and what inputs get has been created before.
* `Graded` : nodes are graded, and leaves hold nodes of later leaves.
* `Changes.graded` : the changes of a load keep this for the order of the ways to parts.
-/

namespace MaterialGraph

set_option autoImplicit false

open Build Assembly LoadResult Relation

variable {s : Recorder} {c c₁ c' e : Context Recorder} {U : PartId → PartId → Prop} {x y z : PartId} {g h : Handle}
  {l l' : Leaf} {b : Binding} {res : Result Unit} {edit : Edit}

/-! ## Handles that are there -/

/-- What leaves hold and what inputs get has been created, and a leaf that does not forward a node owns what it holds. -/
structure Dated (c : Context Recorder) : Prop where
  held : ∀ {x h}, Holds c.assembly x h → h.id < c.system.created
  linked : ∀ {g h}, c.system.Links g h → g.id < c.system.created ∧ h.id < c.system.created
  native : ∀ {x l}, c.assembly.leaf? x = some l → Forwards l.role = false → l.hold.handle? = l.hold.owned?

theorem Build.Moves.reachable (moves : Moves Recorder.renderer c c') (reachable : c.system.Reachable) :
    c'.system.Reachable := by
  induction moves with
  | refl => exact reachable
  | tail _ move ih =>
      cases move with
      | message | edit => exact ih
      | create type => exact ih.create type
      | act a => exact ih.act a

/-- Every context on the way of a load is dated. -/
theorem Build.Steps.dated (steps : Steps Recorder.renderer { system := s } c) (reachable : s.Reachable) : Dated c where
  held holds := ((steps.moves.history .start).mem_created.1 ((steps.accounted (accounted_start s)).held holds)).2
  linked {g h} links := by
    have reachable := steps.moves.reachable reachable
    obtain ⟨n, key, there, -⟩ := id links
    exact ⟨reachable.numbered (there ▸ rfl), reachable.lt_of_feeds ⟨g, links⟩⟩
  native := (steps.accounted (accounted_start s)).native

theorem holds_of_ownedNode? {a : Assembly} (own : ownedNode? a x = some h) : Holds a x h := by
  obtain ⟨⟨hold, role⟩, leaf, own⟩ := Option.bind_eq_some_iff.1 own
  rw [Holds, leaf]
  cases hold <;> cases own
  rfl

theorem ownedNode?_leaf {a : Assembly} (leaf : a.leaf? x = some l) (l' : Leaf) :
    ownedNode? (a.apply (.leaf x l')) z = if z = x then l'.hold.owned? else ownedNode? a z := by
  rw [ownedNode?, leaf?_leaf leaf]
  split <;> rfl

theorem ownedNode?_of_released (leaf : c.assembly.leaf? x = some l)
    (own : ownedNode? (released Recorder.renderer x l c).assembly z = some h) : ownedNode? c.assembly z = some h := by
  rw [released_assembly, ownedNode?_leaf leaf] at own
  split at own
  · cases own
  · exact own

namespace Dated

theorem owned (dated : Dated c) (own : ownedNode? c.assembly x = some h) : h.id < c.system.created :=
  dated.held (holds_of_ownedNode? own)

/-- The next handle belongs to no leaf. -/
theorem next (dated : Dated c) : ¬ ownedNode? c.assembly x = some ⟨c.system.created⟩ :=
  fun own => Nat.lt_irrefl _ (dated.owned own)

theorem released (dated : Dated c) (leaf : c.assembly.leaf? x = some l) : Dated (released Recorder.renderer x l c) := by
  have emptied : Dated (c.edit (.leaf x { l with hold := .nothing })) := by
    refine ⟨fun {y h} holds => ?_, dated.linked, fun {y k} there native => ?_⟩
    · rw [Holds, Context.edit_assembly, leaf?_leaf leaf] at holds
      split at holds
      · cases holds
      · exact dated.held holds
    · rw [Context.edit_assembly, leaf?_leaf leaf] at there
      split at there
      · cases there
        rfl
      · exact dated.native there native
  unfold Build.released
  cases l.hold.owned? with
  | none => exact emptied
  | some g =>
      have same := Recorder.created_act (s := c.system) (.delete g)
      refine ⟨fun holds => same ▸ emptied.held holds, fun links => ?_, emptied.native⟩
      rcases Recorder.Links.of_act links with links | ⟨_, ⟨⟩, -⟩
      exact same ▸ dated.linked links

end Dated

/-! ## Grades -/

/-- Leaves hold nodes of their own or of later leaves, and their own nodes get nodes of later leaves for inputs. -/
structure Graded (U : PartId → PartId → Prop) (c : Context Recorder) : Prop where
  held : ∀ {x z h}, Holds c.assembly x h → ownedNode? c.assembly z = some h → x = z ∨ U x z
  linked : ∀ {x z g h}, ownedNode? c.assembly x = some g → c.system.Links g h → ownedNode? c.assembly z = some h → U x z

namespace Graded

theorem start (U : PartId → PartId → Prop) (s : Recorder) : Graded U { system := s } where
  held holds := by cases holds
  linked own := by cases own

theorem congr (graded : Graded U c) (leaf : ∀ x, c'.assembly.leaf? x = c.assembly.leaf? x) (system : c'.system = c.system) :
    Graded U c' where
  held holds own := graded.held ((Holds.congr (leaf _)).1 holds) (ownedNode?_congr (leaf _) ▸ own)
  linked own links own' :=
    graded.linked (ownedNode?_congr (leaf _) ▸ own) (system ▸ links) (ownedNode?_congr (leaf _) ▸ own')

theorem acted {a : Action} (graded : Graded U c)
    (fed : ∀ g key h, a = .bind g key (.node h) → ∀ x z, ownedNode? c.assembly x = some g →
      ownedNode? c.assembly z = some h → U x z) : Graded U (c.acted Recorder.renderer a) where
  held := graded.held
  linked {x z g h} own links own' := by
    rcases Recorder.Links.of_act links with links | ⟨key, binds, -⟩
    · exact graded.linked own links own'
    · exact fed g key h binds x z own own'

/-- Another state of a leaf, which owns nothing new. -/
theorem put (graded : Graded U c) (x : PartId) (other : ∀ y, y ≠ x → (c.assembly.apply edit).leaf? y = c.assembly.leaf? y)
    (own : ∀ h, ownedNode? (c.assembly.apply edit) x = some h → ownedNode? c.assembly x = some h)
    (held : ∀ h, Holds (c.assembly.apply edit) x h →
      Holds c.assembly x h ∨ ∀ z, ownedNode? c.assembly z = some h → U x z) : Graded U (c.edit edit) := by
  have before {y : PartId} {h : Handle} (now : ownedNode? (c.assembly.apply edit) y = some h) :
      ownedNode? c.assembly y = some h := by
    by_cases hy : y = x
    · subst hy
      exact own h now
    · exact ownedNode?_congr (other y hy) ▸ now
  refine ⟨fun {y z h} holds now => ?_, fun now links now' => graded.linked (before now) links (before now')⟩
  by_cases hy : y = x
  · subst hy
    rcases held h holds with old | later
    · exact graded.held old (before now)
    · exact .inr (later z (before now))
  · exact graded.held ((Holds.congr (other y hy)).1 holds) (before now)

theorem setLeaf (graded : Graded U c) (leaf : c.assembly.leaf? x = some l)
    (own : ∀ h, l'.hold.owned? = some h → l.hold.owned? = some h)
    (held : ∀ h, l'.hold.handle? = some h → l.hold.handle? = some h ∨ ∀ z, ownedNode? c.assembly z = some h → U x z) :
    Graded U (c.edit (.leaf x l')) := by
  have here : (c.assembly.apply (.leaf x l')).leaf? x = some l' := by
    rw [leaf?_leaf leaf, if_pos rfl]
  refine graded.put x (fun y hy => ?_) (fun h now => ?_) fun h holds => ?_
  · rw [leaf?_leaf leaf, if_neg hy]
  · rw [ownedNode?_of_leaf? here] at now
    exact (ownedNode?_of_leaf? leaf).trans (own h now)
  · rw [Holds, here] at holds
    rw [Holds, leaf]
    exact held h holds

/-- A leaf gets a node of its own that nothing has got before. -/
theorem own (graded : Graded U c) (other : ∀ y, y ≠ x → (c.assembly.apply edit).leaf? y = c.assembly.leaf? y)
    (leaf : (c.assembly.apply edit).leaf? x = some l) (hold : l.hold = .owned g) (unheld : ∀ y, ¬ Holds c.assembly y g)
    (unfed : ¬ c.system.Feeds g)
    (links : ∀ h z, c.system.Links g h → ownedNode? c.assembly z = some h → U x z) : Graded U (c.edit edit) := by
  have here : ownedNode? (c.assembly.apply edit) x = some g := by
    rw [ownedNode?_of_leaf? leaf, hold]
    rfl
  have before {y : PartId} {h : Handle} (hy : y ≠ x) (now : ownedNode? (c.assembly.apply edit) y = some h) :
      ownedNode? c.assembly y = some h := ownedNode?_congr (other y hy) ▸ now
  constructor
  · intro y z h holds now
    by_cases hy : y = x <;> by_cases hz : z = x
    · exact .inl (hy.trans hz.symm)
    · rw [hy, Holds, Context.edit_assembly, leaf, Option.bind_some, hold] at holds
      cases holds
      exact absurd (holds_of_ownedNode? (before hz now)) (unheld z)
    · subst hz
      cases here.symm.trans now
      exact absurd ((Holds.congr (other y hy)).1 holds) (unheld y)
    · exact graded.held ((Holds.congr (other y hy)).1 holds) (before hz now)
  · intro y z k h now linked now'
    by_cases hz : z = x
    · subst hz
      cases here.symm.trans now'
      exact absurd ⟨k, linked⟩ unfed
    by_cases hy : y = x
    · subst hy
      cases here.symm.trans now
      exact links h z linked (before hz now')
    · exact graded.linked (before hy now) linked (before hz now')

end Graded

/-! ## Leaves -/

namespace Build

section

variable {type : NodeType} {role : Role} {settings : List (InputKey × Bound)} {name : Option String}
  {result : Result Leaf}

/-- A creation links the new node only, and to nothing but its settings. -/
theorem CreatesLeaf.links (creation : CreatesLeaf Recorder.renderer type role settings name c result c')
    (links : c'.system.Links g h) :
    c.system.Links g h ∨ g = ⟨c.system.created⟩ ∧ ∃ key, (key, .node h) ∈ settings := by
  have setup {g' : Handle} {c₁ : Context Recorder} (reply : (Recorder.create type c.system).1 = .ok g')
      (acts : Acts Recorder.renderer (IsSetting g' settings) (c.created Recorder.renderer type) c₁)
      (links : c₁.system.Links g h) :
      c.system.Links g h ∨ g = ⟨c.system.created⟩ ∧ ∃ key, (key, .node h) ∈ settings := by
    induction acts with
    | refl => exact .inl (Recorder.Links.of_create links)
    | act _ setting ih =>
        rcases Recorder.Links.of_act links with links | ⟨key, rfl, -⟩
        · exact ih links
        · cases setting with
          | bind mem => exact .inr ⟨(Recorder.create_ok reply).1, key, mem⟩
  cases creation with
  | refused => exact .inl (Recorder.Links.of_create links)
  | done reply performs => exact setup reply performs.settings links
  | undone reply performs =>
      rcases Recorder.Links.of_act links with links | ⟨_, ⟨⟩, -⟩
      exact setup reply performs.settings links

theorem CreatesLeaf.graded (creation : CreatesLeaf Recorder.renderer type role settings name c result c')
    (graded : Graded U c) (dated : Dated c) : Graded U c' where
  held {x z h} holds own := by
    rw [creation.assembly] at holds own
    exact graded.held holds own
  linked {x z g h} own links own' := by
    rw [creation.assembly] at own own'
    rcases creation.links links with links | ⟨rfl, -⟩
    · exact graded.linked own links own'
    · exact absurd own dated.next

/-- A leaf gets a node of its own whose settings are nodes of later leaves. -/
theorem CreatesLeaf.own_graded {new : Leaf}
    (creation : CreatesLeaf Recorder.renderer type role settings name c (.ok new) c') (graded : Graded U c)
    (dated : Dated c) (other : ∀ y, y ≠ x → (c'.assembly.apply edit).leaf? y = c'.assembly.leaf? y)
    (leaf : (c'.assembly.apply edit).leaf? x = some l) (hold : l.hold = new.hold)
    (set : ∀ key h, (key, .node h) ∈ settings →
      (∃ y, Holds c.assembly y h) ∧ ∀ z, ownedNode? c.assembly z = some h → U x z) : Graded U (c'.edit edit) := by
  obtain ⟨rfl, -⟩ := creation.dresses
  refine (creation.graded graded dated).own other leaf hold (fun y holds => ?_) ?_ fun h z links own => ?_
  · rw [creation.assembly] at holds
    exact Nat.lt_irrefl _ (dated.held holds)
  · rintro ⟨g, links⟩
    rcases creation.links links with links | ⟨-, key, mem⟩
    · exact Nat.lt_irrefl _ (dated.linked links).2
    · obtain ⟨⟨y, holds⟩, -⟩ := set key _ mem
      exact Nat.lt_irrefl _ (dated.held holds)
  · rw [creation.assembly] at own
    rcases creation.links links with links | ⟨-, key, mem⟩
    · exact absurd (dated.linked links).1 (Nat.lt_irrefl _)
    · exact (set key h mem).2 z own

end

theorem graded_released (graded : Graded U c) (leaf : c.assembly.leaf? x = some l) :
    Graded U (released Recorder.renderer x l c) := by
  have emptied : Graded U (c.edit (.leaf x { l with hold := .nothing })) := graded.setLeaf leaf nofun nofun
  unfold released
  cases l.hold.owned? with
  | none => exact emptied
  | some g => exact emptied.acted nofun

/-- To bind a node to a leaf gives no leaf another node of its own. -/
theorem BindsLeaf.ownedNode?_of_node (binds : BindsLeaf Recorder.renderer x l (.node g) c res c')
    (leaf : c.assembly.leaf? x = some l) (own : ownedNode? c'.assembly z = some h) : ownedNode? c.assembly z = some h := by
  have empty := leaf?_released (r := Recorder.renderer) leaf
  cases binds with
  | unchanged | called => exact own
  | params p' role =>
      rw [Context.edit_assembly, ownedNode?_leaf leaf] at own
      split at own
      · next same => rwa [same, ownedNode?_of_leaf? leaf]
      · exact own
  | forwarded =>
      rw [Context.edit_assembly, ownedNode?_leaf leaf] at own
      split at own
      · cases own
      · exact own
  | redirected =>
      rw [Context.edit_assembly, ownedNode?_leaf empty] at own
      split at own
      · cases own
      · exact ownedNode?_of_released leaf own
  | emptied _ literal | lost _ literal | replaced _ literal => cases literal

/-- A leaf may be bound to a node that later leaves own. -/
theorem BindsLeaf.graded (binds : BindsLeaf Recorder.renderer x l b c res c') (leaf : c.assembly.leaf? x = some l)
    (graded : Graded U c) (trans : ∀ {x y z}, U x y → U y z → U x z) (dated : Dated c)
    (later : ∀ h, b = .node h → ∀ z, ownedNode? c.assembly z = some h → U x z) : Graded U c' := by
  have gone := graded_released graded leaf
  have empty := leaf?_released (r := Recorder.renderer) leaf
  cases binds with
  | unchanged => exact graded
  | @called h₀ value key res mem held asked =>
      refine graded.acted fun g key' h same y z own own' => ?_
      cases same
      cases asked
      have mine : ownedNode? c.assembly x = some h₀ := by
        rw [ownedNode?_of_leaf? leaf, ← dated.native leaf (native_of_mem_inputKeys mem)]
        exact held
      rcases graded.held (holds_of_ownedNode? own) mine with rfl | before
      · exact later h rfl z own'
      · exact trans before (later h rfl z own')
  | params => exact graded.setLeaf leaf (fun _ => id) fun _ => .inl
  | forwarded _ node =>
      refine graded.setLeaf leaf nofun fun h held => .inr ?_
      cases held
      exact later _ node
  | redirected _ node =>
      refine gone.setLeaf empty nofun fun h held => .inr fun z own => ?_
      cases held
      exact later _ node z (ownedNode?_of_released leaf own)
  | emptied => exact gone
  | lost _ _ creation => exact creation.graded gone (dated.released leaf)
  | @replaced constant _ _ _ _ c₁ _ _ creation =>
      have there : c₁.assembly.leaf? x = some { l with hold := .nothing } := by
        rw [creation.assembly]
        exact empty
      have here : (c₁.assembly.apply (.leaf x { l with hold := constant.hold })).leaf? x =
          some { l with hold := constant.hold } := by
        rw [leaf?_leaf there, if_pos rfl]
      refine creation.own_graded gone (dated.released leaf) (fun y hy => ?_) here rfl fun key h mem => ?_
      · rw [leaf?_leaf there, if_neg hy]
      · exact absurd mem (fixed_floats _ key h)

/-- A binding reaches the leaves below a part one after the other. -/
theorem Binds.graded (binds : Binds Recorder.renderer y b c c') (reached : Steps Recorder.renderer { system := s } c)
    (step : ∀ c', Binds Recorder.renderer y b c c' → Step Recorder.renderer c c') (reachable : s.Reachable)
    (graded : Graded U c) (trans : ∀ {x y z}, U x y → U y z → U x z)
    (later : ∀ h, b = .node h → ∀ x, Below c.assembly y x → ∀ z, ownedNode? c.assembly z = some h → U x z) :
    Graded U c' ∧ ∀ g, b = .node g → ∀ z h, ownedNode? c'.assembly z = some h → ownedNode? c.assembly z = some h := by
  induction binds with
  | refl => exact ⟨graded, fun _ _ _ _ => id⟩
  | remark before margin text ih => exact ⟨ih.1.congr (fun _ => rfl) rfl, ih.2⟩
  | leaf before below leaf binds ih =>
      have dated := Steps.dated (reached.tail (step _ before)) reachable
      refine ⟨binds.graded leaf ih.1 trans dated fun h node z own => ?_, fun g node z h own => ?_⟩
      · exact later h node _ (before.rebinds.below.1 below) z (ih.2 h node z h own)
      · subst node
        exact ih.2 g rfl z h (binds.ownedNode?_of_node leaf own)

end Build

/-! ## Changes -/

section

variable {s₀ : Recorder} {W : Env Recorder} {selected : List (OutputKind × Candidate)}

/-- A new leaf has a node whose settings are nodes of later leaves. -/
theorem Build.CreatesLeaf.add_graded {type : NodeType} {role : Role} {settings : List (InputKey × Bound)}
    {name : Option String} (creation : CreatesLeaf Recorder.renderer type role settings name c (.ok l) c')
    (graded : Graded U c) (dated : Dated c)
    (set : ∀ key h, (key, .node h) ∈ settings →
      (∃ y, Holds c.assembly y h) ∧ ∀ z, ownedNode? c.assembly z = some h → U c'.assembly.size z) :
    Graded U (c'.edit (.add (.leaf l))) := by
  have here : (c'.assembly.apply (.add (.leaf l))).leaf? c'.assembly.size = some l := by
    rw [leaf?_add_leaf, if_pos rfl]
  refine creation.own_graded graded dated (fun y hy => ?_) here rfl set
  rw [leaf?_add_leaf, if_neg hy]

theorem Build.MakesLeaf.graded {n : Node} (makes : MakesLeaf Recorder.renderer n c l c') (graded : Graded U c)
    (dated : Dated c) : Graded U (c'.edit (.add (.leaf l))) := by
  cases makes with
  | @forward role =>
      have here : (c.assembly.apply (.add (.leaf ⟨.nothing, role⟩))).leaf? c.assembly.size = some ⟨.nothing, role⟩ := by
        rw [leaf?_add_leaf, if_pos rfl]
      refine graded.put c.assembly.size (fun y hy => ?_) (fun h own => ?_) fun h holds => ?_
      · rw [leaf?_add_leaf, if_neg hy]
      · rw [ownedNode?_of_leaf? here] at own
        cases own
      · rw [Holds, here] at holds
        cases holds
  | create recipe creation =>
      exact creation.add_graded graded dated fun key h mem => absurd mem (fixed_of_recipe recipe key h)

/-- A part may be connected whose leaves come before those behind the output. -/
theorem graded_connect (recording : W.renderer = Recorder.renderer) {p : Place} {output : Option String} {i : Input}
    (connected : connect x output y i (W.at p) c = .ok (res, c'))
    (reached : Steps Recorder.renderer { system := s₀ } c) (reachable : s₀.Reachable) (graded : Graded U c)
    (trans : ∀ {x y z}, U x y → U y z → U x z)
    (first : ∀ z, StandsBehind c.assembly x output z → ∀ u, Below c.assembly y u → U u z) : Graded U c' := by
  obtain ⟨c₁, rfl, passes⟩ := passes_connect _ _ connected
  have begun : Graded U (c.edit (.began (.connection x output y i))) := graded.congr (fun _ => rfl) rfl
  have reached₁ : Steps Recorder.renderer { system := s₀ } (c.edit (.began (.connection x output y i))) :=
    reached.tail (.mark (.began _))
  refine Graded.congr (c := c₁) ?_ (fun _ => rfl) rfl
  change Passes W.renderer x output y _ c₁ at passes
  rw [recording] at passes
  cases passes with
  | nothing => exact begun
  | handle behind holds binds =>
      refine (binds.graded reached₁ (fun _ before => .passes (.handle behind holds before)) reachable begun trans ?_).1
      intro h' same u below z own
      cases same
      -- what holds the node behind the output need not own it
      rcases graded.held holds own with rfl | next
      · exact first _ behind u below
      · exact trans (first _ behind u below) next

/-- A child may be connected to another child of its composite, of which its node takes an output. -/
theorem graded_sibling (recording : W.renderer = Recorder.renderer)
    (reached : Steps Recorder.renderer { system := s₀ } c) (reachable : s₀.Reachable) (later : Later c' e)
    (charted : Charted W.catalog e) (guarded : W.catalog.IsGuarded) (nested : Nested W.catalog c)
    (graded : Graded (Outranks W.catalog e) c) {s : Scene} {p : Place} {id : PartId} {g : Graph} {n m : Node}
    {output : Option String} {i : Input} (situated : Situated W selected p c s) (composite : HasGraph c.assembly id g)
    (consumes : Consumes id g n s) (draws : Draws W.catalog c.assembly id g n m)
    (producer : c.assembly.child? id m.name = some x) (receives : Receives c.assembly s y)
    (connected : connect x output y i (W.at p) c = .ok (res, c'))
    (noted : res = .ok () → e.assembly.HasEdge id n.name m.name) : Graded (Outranks W.catalog e) c' := by
  have grown : Later c c' := .of_steps (Connects.of_eq connected).steps
  have tidy := charted.orderly.tidy.of_suffix (grown.trans later).suffix
  have orderly : Orderly c := ⟨situated.founded.faithful, tidy⟩
  obtain ⟨graph, node⟩ := situated.sits.has consumes
  have needed := draws.2.has
  have ordered (precedes : Precedes W.catalog e.assembly (id, ⟨g, n⟩) (id, ⟨g, m⟩)) :
      Graded (Outranks W.catalog e) c' := by
    refine graded_connect recording connected reached reachable graded (fun h₁ h₂ => h₁.trans charted h₂)
      fun z behind u below => ?_
    have ahead : Ahead c' e s := by cases consumes <;> trivial
    have gets := situated.gets tidy (grown.trans later) ahead receives below
    exact outranked_sibling consumes composite needed producer behind orderly (grown.trans later) charted gets precedes
  by_cases expands : Recipe.of n = .ok .expand
  · exact ordered (.of_escapes guarded .refl ⟨draws.2.depends graph node.mem, .inl expands⟩)
  cases res with
  | ok =>
      have there := composite.extends (grown.trans later).ext
      exact ordered (.inl ⟨rfl, .single (.edge there node needed (noted rfl))⟩)
  | error =>
      -- nothing has been bound to the leaf
      have leaf := (nested.expands orderly (situated.noted_of_receives consumes receives) composite node).resolve_right
        fun inner => expands inner.1
      obtain ⟨l, leaf⟩ := Option.isSome_iff_exists.1 leaf
      obtain ⟨assembly, system⟩ := after_connect_spares (E := W.at p) recording leaf _ _ connected _ rfl
      exact graded.congr (fun _ => by rw [assembly]) system

/-- The changes of a load bind nodes to leaves that come before their own. -/
theorem Change.graded (recording : W.renderer = Recorder.renderer) (change : Change W selected e c c')
    (reached : Steps Recorder.renderer { system := s₀ } c) (reachable : s₀.Reachable) (later : Later c' e)
    (charted : Charted W.catalog e) (guarded : W.catalog.IsGuarded)
    (distinct : (W.catalog.document.nodeGraphs.map (·.name)).Nodup) (nested : Nested W.catalog c)
    (graded : Graded (Outranks W.catalog e) c) : Graded (Outranks W.catalog e) c' := by
  have dated := Steps.dated reached reachable
  have grown : Later c c' := .of_steps change.steps
  have tidy := charted.orderly.tidy.of_suffix (grown.trans later).suffix
  have trans {x y z : PartId} (h₁ : Outranks W.catalog e x y) (h₂ : Outranks W.catalog e y z) :
      Outranks W.catalog e x z := h₁.trans charted h₂
  cases change with
  | message => exact graded.congr (fun _ => rfl) rfl
  | mark mark => cases mark <;> exact graded.congr (fun _ => rfl) rfl
  | refused _ creation =>
      rw [recording] at creation
      exact creation.graded graded dated
  | @wrap c₁ y h l holds creation apart =>
      rw [recording] at creation
      refine creation.add_graded graded dated fun key h' mem => ?_
      cases List.mem_singleton.1 mem
      refine ⟨⟨y, holds⟩, fun z own => charted.outranks_older apart ?_⟩
      obtain ⟨k, leaf, -⟩ := Option.bind_eq_some_iff.1 own
      rw [creation.assembly]
      exact lt_size_of_leaf? leaf
  | composite => exact graded.congr (fun _ => leaf?_add_composite _) rfl
  | leafChild _ makes =>
      rw [recording] at makes
      exact (makes.graded graded dated).congr (fun _ => leaf?_child _ _) rfl
  | compositeChild => exact graded.congr (fun _ => leaf?_child _ _) rfl
  | socket => exact graded.congr (fun _ => leaf?_socket _ _) rfl
  | edge => exact graded.congr (fun _ => leaf?_edge _) rfl
  | sibling situated composite consumes draws producer receives connected noted =>
      exact graded_sibling recording reached reachable later charted guarded nested graded situated composite consumes
        draws producer receives connected noted
  | connection situated ahead provides receives connected =>
      refine graded_connect recording connected reached reachable graded trans fun z behind u below => ?_
      have gets := situated.gets tidy (grown.trans later) ahead receives below
      exact provides.outranked behind situated tidy (grown.trans later) charted guarded gets distinct
  | literal _ _ _ bound =>
      have binds := Binds.of_eq bound
      rw [recording] at binds
      exact (binds.graded reached (fun _ => .literal) reachable graded trans nofun).1
  | geometry absent creation =>
      rw [recording] at creation
      have made := creation.add_graded graded dated fun key h mem => absurd mem ((fixed_ofLookup _) key h)
      exact made.congr (fun _ => rfl) rfl
  | top => exact graded.congr (fun _ => rfl) rfl
  | freeStanding => exact graded.congr (fun _ => rfl) rfl

theorem Changes.graded (recording : W.renderer = Recorder.renderer) (changes : Changes W selected e c c')
    (reached : Steps Recorder.renderer { system := s₀ } c) (reachable : s₀.Reachable) (later : Later c' e)
    (charted : Charted W.catalog e) (guarded : W.catalog.IsGuarded)
    (distinct : (W.catalog.document.nodeGraphs.map (·.name)).Nodup) (nested : Nested W.catalog c)
    (graded : Graded (Outranks W.catalog e) c) : Graded (Outranks W.catalog e) c' := by
  induction changes with
  | refl => exact graded
  | @tail c₁ _ before change ih =>
      have grown : Later c₁ _ := .of_steps change.steps
      have steps : Steps Recorder.renderer c c₁ := recording ▸ Changes.steps before
      have nested₁ : Nested W.catalog c₁ := Changes.nested before nested
      exact change.graded recording (reached.trans steps) reachable later charted guarded distinct nested₁
        (ih (grown.trans later))

end

end MaterialGraph
