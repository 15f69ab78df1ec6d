import MaterialGraph.Proofs.Course.Loads
import MaterialGraph.Proofs.Frame
import MaterialGraph.Proofs.Reach

/-!
# Passthrough nodes

Only what stands for a surface gets a passthrough node. The leaf that owns it is no child and is not shared, so nothing
below a producer holds it, and no other node gets it for an input.

* `Recorder.Links`, `Recorder.Feeds` : a live node has a handle for an input.
* `Recorder.Genuine` : a handle is that of no passthrough node, now or later.
* `Secluded` : all that leaves hold and all that is bound is genuine, apart from what stands for a surface and from what
  was bound before the load.
* `Run.secluded` : runs keep it so.
-/

namespace MaterialGraph

set_option autoImplicit false

open Build Assembly

/-! ## The renderer -/

namespace Recorder

variable {t : Recorder} {g h : Handle} {n' : RecordedNode} {type : NodeType} {a : Action}

def Links (t : Recorder) (g h : Handle) : Prop := ∃ n key, t.node? g = some n ∧ n.bound key = some (.node h)

/-- A handle is there for an input of a live node. -/
def Feeds (t : Recorder) (h : Handle) : Prop := ∃ g n key, t.node? g = some n ∧ n.bound key = some (.node h)

/-- A handle is that of no passthrough node, now or later. -/
def Genuine (t : Recorder) (h : Handle) : Prop := h.id < t.created ∧ ∀ n, t.node? h = some n → n.type ≠ .passthrough

/-- A node that is live after an action was live before, with the same type. What is bound to it was bound before, or
the action binds it. -/
theorem node?_of_act (there : (act a t).2.node? g = some n') :
    ∃ n, t.node? g = some n ∧ n'.type = n.type ∧
      ∀ key v, n'.bound key = some v → n.bound key = some v ∨ (a = .bind g key v ∧ t.accepts v = true) := by
  have same (there : t.node? g = some n') : ∃ n, t.node? g = some n ∧ n'.type = n.type ∧
      ∀ key v, n'.bound key = some v → n.bound key = some v ∨ (a = .bind g key v ∧ t.accepts v = true) :=
    ⟨n', there, rfl, fun _ _ => .inl⟩
  cases a with
  | delete h =>
      rw [node?_delete] at there
      split at there
      · cases there
      · exact same there
  | rename h name =>
      rw [act_rename, node?_modify] at there
      split at there
      · obtain ⟨n, before, rfl⟩ := Option.map_eq_some_iff.1 there
        exact ⟨n, before, rfl, fun _ _ => .inl⟩
      · exact same there
  | bind h key v =>
      rw [act_bind] at there
      split at there
      · next accepts =>
        rw [node?_modify] at there
        split at there
        · next here =>
          obtain ⟨n, before, rfl⟩ := Option.map_eq_some_iff.1 there
          refine ⟨n, before, rfl, fun k w bound => ?_⟩
          rw [RecordedNode.bound_bind] at bound
          split at bound
          · next hk =>
            cases bound
            exact .inr ⟨by rw [here, hk], accepts⟩
          · exact .inl bound
        · exact same there
      · exact same there

theorem Links.of_act (links : (act a t).2.Links g h) :
    t.Links g h ∨ ∃ key, a = .bind g key (.node h) ∧ (t.node? h).isSome := by
  obtain ⟨n', key, there, bound⟩ := links
  obtain ⟨n, before, -, bounds⟩ := node?_of_act there
  rcases bounds key _ bound with bound | ⟨binds, accepts⟩
  · exact .inl ⟨n, key, before, bound⟩
  · exact .inr ⟨key, binds, accepts⟩

theorem Links.of_create (links : (create type t).2.Links g h) : t.Links g h := by
  obtain ⟨n, key, there, bound⟩ := links
  cases reply : (create type t).1 with
  | error e =>
      rw [create_error reply] at there
      exact ⟨n, key, there, bound⟩
  | ok new =>
      rw [node?_create reply] at there
      split at there
      · cases there
        cases bound
      · exact ⟨n, key, there, bound⟩

theorem Feeds.of_act (feeds : (act a t).2.Feeds h) :
    t.Feeds h ∨ ∃ g key, a = .bind g key (.node h) ∧ (t.node? h).isSome := by
  obtain ⟨g, links⟩ := feeds
  exact (Links.of_act links).imp (⟨g, ·⟩) (⟨g, ·⟩)

theorem Feeds.of_create (feeds : (create type t).2.Feeds h) : t.Feeds h :=
  have ⟨g, links⟩ := feeds
  ⟨g, Links.of_create links⟩

/-- In states that calls lead to, an input of a live node is a node that has been created. -/
theorem Reachable.lt_of_feeds (reachable : t.Reachable) (feeds : t.Feeds h) : h.id < t.created := by
  induction reachable with
  | start =>
      obtain ⟨_, _, _, there, -⟩ := feeds
      cases there
  | failing _ type ih => exact ih feeds
  | @create r before type ih =>
      have old := ih feeds.of_create
      cases reply : (Recorder.create type r).1 with
      | error e => rwa [create_error reply]
      | ok g =>
          rw [(create_ok reply).2]
          exact Nat.lt_succ_of_lt old
  | @act r before a ih =>
      rw [created_act]
      rcases feeds.of_act with feeds | ⟨_, _, -, live⟩
      · exact ih feeds
      · exact before.numbered live

theorem Genuine.act (genuine : t.Genuine h) (a : Action) : (act a t).2.Genuine h := by
  refine ⟨(created_act a).symm ▸ genuine.1, fun n' there => ?_⟩
  obtain ⟨n, before, same, -⟩ := node?_of_act there
  rw [same]
  exact genuine.2 n before

theorem Genuine.create (genuine : t.Genuine h) (type : NodeType) : (create type t).2.Genuine h := by
  cases reply : (Recorder.create type t).1 with
  | error e =>
      rw [create_error reply]
      exact genuine
  | ok g =>
      obtain ⟨rfl, more⟩ := create_ok reply
      refine ⟨more ▸ Nat.lt_succ_of_lt genuine.1, fun n there => ?_⟩
      rw [node?_create reply, if_neg] at there
      · exact genuine.2 n there
      · rintro rfl
        exact Nat.lt_irrefl _ genuine.1

/-- A new node of another type is genuine. -/
theorem genuine_create (reply : (create type t).1 = .ok h) (other : type ≠ .passthrough) : (create type t).2.Genuine h := by
  refine ⟨?_, fun n there => ?_⟩
  · rw [(create_ok reply).1, (create_ok reply).2]
    exact Nat.lt_succ_self _
  · rw [node?_create reply, if_pos rfl] at there
    cases there
    exact other

end Recorder

/-- No node of a document calls for a passthrough node. -/
theorem Node.CallsFor.type_ne {n : Node} {sig : Signature} (h : n.CallsFor sig) : sig.type ≠ .passthrough := by
  cases h with
  | @entry m category entry =>
      have all : ∀ e ∈ Mapping.table, e.2.type ≠ .passthrough := by decide
      change m.type ≠ _
      unfold Mapping.entryFor? at entry
      split at entry
      · cases entry
        decide
      · obtain ⟨before, after, table, -⟩ := List.lookup_eq_some_iff.1 entry
        exact all (n.category, m) (by rw [table]; simp)
  | _ => nofun

variable {s : Recorder} {c c' : Context Recorder} {x y : PartId} {h : Handle}

theorem Build.Moves.genuine (moves : Moves Recorder.renderer c c') (genuine : c.system.Genuine h) :
    c'.system.Genuine h := by
  induction moves with
  | refl => exact genuine
  | tail _ move ih =>
      cases move with
      | message | edit => exact ih
      | create type => exact ih.create type
      | act a => exact ih.act a

/-- What a new leaf owns is genuine unless it is a passthrough node. -/
theorem Build.CreatesLeaf.genuine {type : NodeType} {role : Role} {settings : List (InputKey × Bound)}
    {name : Option String} {l : Leaf} (creation : CreatesLeaf Recorder.renderer type role settings name c (.ok l) c')
    (other : type ≠ .passthrough) (held : l.hold.handle? = some h) : c'.system.Genuine h := by
  cases creation with
  | done reply setup =>
      cases held
      have new : (c.created Recorder.renderer type).system.Genuine h := Recorder.genuine_create reply other
      exact setup.settings.moves.genuine new

/-! ## Contexts -/

/-- What stands for a surface is not shared. All that other leaves hold is genuine, and so is every input of a live node
that is no older than the load, which starts from a recorder. -/
structure Secluded (s : Recorder) (c : Context Recorder) : Prop where
  shared : ∀ {x l}, x ∈ c.assembly.shared → c.assembly.leaf? x = some l → l.role ≠ .wrap
  held : ∀ {x l h}, c.assembly.leaf? x = some l → l.role ≠ .wrap → l.hold.handle? = some h → c.system.Genuine h
  bound : ∀ {h}, c.system.Feeds h → h.id < s.created ∨ c.system.Genuine h

namespace Secluded

theorem start (reachable : s.Reachable) : Secluded s { system := s } where
  shared hx := by
    rcases mem_shared.1 hx with top | ⟨_, known⟩ | ⟨_, _, known, -⟩ <;> simp at *
  held there := by cases there
  bound feeds := .inl (reachable.lt_of_feeds feeds)

theorem push (secluded : Secluded s c) (e : Event) : Secluded s (c.push e) :=
  ⟨secluded.shared, secluded.held, secluded.bound⟩

/-- An edit that changes no leaf, and after which no other leaf is shared. -/
theorem edit {e : Edit} (secluded : Secluded s c) (leaf : ∀ x, (c.assembly.apply e).leaf? x = c.assembly.leaf? x)
    (shared : ∀ x ∈ (c.assembly.apply e).shared,
      x ∈ c.assembly.shared ∨ ∀ l, c.assembly.leaf? x = some l → l.role ≠ .wrap) : Secluded s (c.edit e) where
  shared {x l} hx there := by
    rw [Context.edit_assembly, leaf] at there
    exact (shared x hx).elim (fun before => secluded.shared before there) fun plain => plain l there
  held there := secluded.held ((leaf _).symm.trans there)
  bound := secluded.bound

/-- An edit that changes no leaf and shares nothing. -/
theorem aside {e : Edit} (secluded : Secluded s c) (leaf : ∀ x, (c.assembly.apply e).leaf? x = c.assembly.leaf? x)
    (shared : (c.assembly.apply e).shared = c.assembly.shared) : Secluded s (c.edit e) :=
  secluded.edit leaf fun _ hx => .inl (shared ▸ hx)

theorem mark {e : Edit} (secluded : Secluded s c) (mark : IsMark e) : Secluded s (c.edit e) := by
  cases mark <;> exact secluded.aside (fun _ => rfl) rfl

theorem composite (secluded : Secluded s c) (g : Graph) :
    Secluded s (c.edit (.add (.composite { graph := g }))) :=
  secluded.aside (fun _ => leaf?_add_composite _) rfl

/-- A new composite is shared, which is no leaf. -/
theorem share {e : Edit} {g : Graph} (secluded : Secluded s c)
    (leaf : ∀ x, ((c.assembly.apply (.add (.composite { graph := g }))).apply e).leaf? x =
      (c.assembly.apply (.add (.composite { graph := g }))).leaf? x)
    (shared : ∀ x ∈ ((c.assembly.apply (.add (.composite { graph := g }))).apply e).shared,
      x ∈ c.assembly.shared ∨ x = c.assembly.size) :
    Secluded s ((c.edit (.add (.composite { graph := g }))).edit e) := by
  refine (secluded.composite g).edit leaf fun x hx => (shared x hx).imp_right fun new l there => ?_
  rw [new, Context.edit_assembly, leaf?_add_composite] at there
  exact absurd (lt_size_of_leaf? there) (Nat.lt_irrefl _)

theorem setLeaf {l l' : Leaf} (secluded : Secluded s c) (leaf : c.assembly.leaf? x = some l)
    (role : l'.role = .wrap → l.role = .wrap)
    (held : ∀ h, l'.role ≠ .wrap → l'.hold.handle? = some h → c.system.Genuine h) :
    Secluded s (c.edit (.leaf x l')) where
  shared {y k} hy there := by
    rw [Context.edit_assembly, leaf?_leaf leaf] at there
    split at there
    · next same =>
      cases there
      exact fun wrap => secluded.shared (same ▸ hy) leaf (role wrap)
    · exact secluded.shared hy there
  held {y k h} there plain holds := by
    rw [Context.edit_assembly, leaf?_leaf leaf] at there
    split at there
    · cases there
      exact held h plain holds
    · exact secluded.held there plain holds
  bound := secluded.bound

theorem addLeaf {l : Leaf} (secluded : Secluded s c) (apart : l.role = .wrap → c.assembly.size ∉ c.assembly.shared)
    (held : ∀ h, l.role ≠ .wrap → l.hold.handle? = some h → c.system.Genuine h) :
    Secluded s (c.edit (.add (.leaf l))) where
  shared {y k} hy there := by
    rw [Context.edit_assembly, leaf?_add_leaf] at there
    split at there
    · next new =>
      cases there
      exact fun wrap => apart wrap (new ▸ hy)
    · exact secluded.shared hy there
  held {y k h} there plain holds := by
    rw [Context.edit_assembly, leaf?_add_leaf] at there
    split at there
    · cases there
      exact held h plain holds
    · exact secluded.held there plain holds
  bound := secluded.bound

theorem created (secluded : Secluded s c) (type : NodeType) : Secluded s (c.created Recorder.renderer type) where
  shared := secluded.shared
  held there plain holds := (secluded.held there plain holds).create type
  bound feeds := (secluded.bound feeds.of_create).imp_right fun genuine => genuine.create type

theorem acted {a : Action} (secluded : Secluded s c)
    (fed : ∀ g key h, a = .bind g key (.node h) → c.system.Genuine h) : Secluded s (c.acted Recorder.renderer a) where
  shared := secluded.shared
  held there plain holds := (secluded.held there plain holds).act a
  bound {h} feeds := by
    rcases feeds.of_act with feeds | ⟨g, key, binds, -⟩
    · exact (secluded.bound feeds).imp_right fun genuine => genuine.act a
    · exact .inr ((fed g key h binds).act a)

end Secluded

namespace Build

/-! ## Leaves -/

theorem CreatesLeaf.secluded {type : NodeType} {role : Role} {settings : List (InputKey × Bound)}
    {name : Option String} {res : Result Leaf}
    (creation : CreatesLeaf Recorder.renderer type role settings name c res c') (secluded : Secluded s c)
    (fed : ∀ key h, (key, .node h) ∈ settings → c.system.Genuine h) : Secluded s c' := by
  have made := secluded.created type
  have setup {g : Handle} {c₁ : Context Recorder}
      (acts : Acts Recorder.renderer (IsSetting g settings) (c.created Recorder.renderer type) c₁) : Secluded s c₁ := by
    induction acts with
    | refl => exact made
    | act before ha ih =>
        refine ih.acted fun g key h binds => ?_
        subst binds
        obtain ⟨mem⟩ := ha
        exact before.moves.genuine ((fed key h mem).create type)
  cases creation with
  | refused => exact made
  | done _ performs => exact setup performs.settings
  | undone _ performs => exact (setup performs.settings).acted nofun

theorem Fixed.fed {settings : List (InputKey × Bound)} (fixed : Fixed settings) (t : Recorder) (key : InputKey)
    (h : Handle) (mem : (key, .node h) ∈ settings) : t.Genuine h :=
  (fixed key h mem).elim

theorem fixed_floats (v : Number.Float4) : Fixed [(.value, .floats v)] := by
  intro key g mem
  simp at mem

/-- A leaf whose node is of another type is added. -/
theorem CreatesLeaf.add_secluded {type : NodeType} {role : Role} {settings : List (InputKey × Bound)}
    {name : Option String} {l : Leaf} (creation : CreatesLeaf Recorder.renderer type role settings name c (.ok l) c')
    (secluded : Secluded s c) (fixed : Fixed settings) (other : type ≠ .passthrough) (plain : role ≠ .wrap) :
    Secluded s (c'.edit (.add (.leaf l))) := by
  refine (creation.secluded secluded (fixed.fed _)).addLeaf (fun wrap => ?_) fun h _ held => creation.genuine other held
  cases creation
  exact absurd wrap plain

theorem MakesLeaf.secluded {n : Node} {l : Leaf} (makes : MakesLeaf Recorder.renderer n c l c')
    (secluded : Secluded s c) : Secluded s (c'.edit (.add (.leaf l))) := by
  have plain := makes.ne_wrap
  cases makes with
  | forward => exact secluded.addLeaf (fun wrap => absurd wrap plain) nofun
  | create recipe creation =>
      refine creation.add_secluded secluded (fixed_of_recipe recipe) (callsFor_of_recipe recipe).type_ne ?_
      rintro rfl
      exact (ne_wrap_of_recipe recipe).2 _ _ rfl

theorem secluded_released {l : Leaf} (secluded : Secluded s c) (leaf : c.assembly.leaf? x = some l) :
    Secluded s (released Recorder.renderer x l c) := by
  have emptied : Secluded s (c.edit (.leaf x { l with hold := .nothing })) := secluded.setLeaf leaf id nofun
  unfold released
  cases l.hold.owned? with
  | none => exact emptied
  | some h => exact emptied.acted nofun

/-- A leaf that is bound to what is genuine holds what is genuine. -/
theorem BindsLeaf.secluded {l : Leaf} {b : Binding} {res : Result Unit}
    (binds : BindsLeaf Recorder.renderer x l b c res c') (leaf : c.assembly.leaf? x = some l) (secluded : Secluded s c)
    (genuine : ∀ h, b = .node h → c.system.Genuine h) : Secluded s c' := by
  have gone := secluded_released secluded leaf
  have empty := leaf?_released (r := Recorder.renderer) leaf
  have kept {h : Handle} (hg : c.system.Genuine h) : (released Recorder.renderer x l c).system.Genuine h :=
    (moves_released leaf).genuine hg
  cases binds with
  | unchanged => exact secluded
  | called key _ mem held asked =>
      refine secluded.acted fun g k h same => ?_
      cases same
      cases asked
      exact genuine h rfl
  | params p' role =>
      refine secluded.setLeaf leaf nofun fun h _ held => secluded.held leaf ?_ held
      rw [role]
      nofun
  | forwarded role node =>
      refine secluded.setLeaf leaf id fun h _ held => ?_
      cases held
      exact genuine _ node
  | redirected role node =>
      refine gone.setLeaf empty id fun h _ held => ?_
      cases held
      exact kept (genuine _ node)
  | emptied => exact gone
  | lost _ _ creation => exact creation.secluded gone ((fixed_floats _).fed _)
  | @replaced _ _ _ _ _ c₁ _ _ creation =>
      have there : c₁.assembly.leaf? x = some { l with hold := .nothing } := by
        rw [creation.assembly]
        exact empty
      exact (creation.secluded gone ((fixed_floats _).fed _)).setLeaf there id fun h _ held => creation.genuine nofun held

theorem Binds.secluded {b : Binding} (binds : Binds Recorder.renderer x b c c') (secluded : Secluded s c)
    (genuine : ∀ h, b = .node h → c.system.Genuine h) : Secluded s c' := by
  induction binds with
  | refl => exact secluded
  | remark _ _ _ ih => exact ih.push _
  | leaf before _ leaf binds ih => exact binds.secluded leaf ih fun h node => before.moves.genuine (genuine h node)

/-- What a child holds, or what is held below a part that graphs share, is genuine. -/
theorem genuine_of_below (proper : c.assembly.Forest) (secluded : Secluded s c)
    (origin : c.assembly.IsChild x ∨ x ∈ c.assembly.shared) (below : Below c.assembly x y)
    (holds : Holds c.assembly y h) : c.system.Genuine h := by
  obtain ⟨l, leaf, held⟩ := Option.bind_eq_some_iff.1 holds
  refine secluded.held leaf (fun wrap => ?_) held
  rcases origin with child | shared
  · exact proper.wrap leaf wrap (isChild_of_below child below)
  · cases below with
    | refl => exact secluded.shared shared leaf wrap
    | child _ child => exact proper.wrap leaf wrap ⟨_, _, child⟩

theorem Connects.secluded {success : Bool} (connects : Connects Recorder.renderer x y success c c')
    (forest : c.assembly.Forest) (secluded : Secluded s c)
    (origin : c.assembly.IsChild x ∨ x ∈ c.assembly.shared) : Secluded s c' := by
  obtain @⟨c₁, output, i, passes⟩ := connects
  have begun := secluded.mark (.began (.connection x output y i))
  refine Secluded.mark ?_ (.ended _ _)
  cases passes with
  | nothing => exact begun
  | handle behind holds binds =>
      refine binds.secluded begun fun g node => ?_
      cases node
      exact genuine_of_below forest begun origin (below_of_behind behind) holds

theorem Barren.secluded (barren : Barren Recorder.renderer c c') (secluded : Secluded s c) : Secluded s c' := by
  induction barren with
  | refl => exact secluded
  | trans _ _ ih₁ ih₂ => exact ih₂ (ih₁ secluded)
  | message => exact secluded.push _
  | task _ ih => exact (ih (secluded.mark (.began _))).mark (.ended _ _)
  | failed fixed creation => exact creation.secluded secluded (fixed.fed _)
  | composite => exact secluded.composite _

/-! ## Runs -/

theorem Starts.secluded {g : NodeGraph} (starts : Starts g c x c') (secluded : Secluded s c) : Secluded s c' := by
  cases starts with
  | first => exact secluded.share (fun _ => rfl) fun _ hx => mem_shared_freeStanding hx
  | again built =>
      refine secluded.edit (fun _ => rfl) fun y hy => .inl ?_
      rcases mem_shared_freeStanding hy with before | rfl
      · exact before
      · exact mem_shared.2 (.inr (.inr ⟨g.name, _, built, rfl⟩))

theorem IsOutside.origin {d : Context Recorder} (outside : IsOutside d x) :
    d.assembly.IsChild x ∨ x ∈ d.assembly.shared := by
  cases outside with
  | geometry known => exact .inr (mem_shared.2 (.inr (.inl ⟨_, known⟩)))
  | graph built => exact .inr (mem_shared.2 (.inr (.inr ⟨_, _, built, rfl⟩)))
  | top _ child => exact .inl ⟨_, _, child.1⟩

/-- Runs bind only what is genuine. -/
theorem Run.secluded {W : Env Recorder} (recording : W.renderer = Recorder.renderer) {ph : Phase} {id : PartId} {n : Nat}
    (run : Run W ph id n c c') (proper : Proper s W.catalog c) (secluded : Secluded s c) : Secluded s c' := by
  induction run with
  | refl => exact secluded
  | trans first _ ih₁ ih₂ => exact ih₂ (proper.run recording first) (ih₁ proper secluded)
  | message => exact secluded.push _
  | barren barren => exact (recording ▸ barren).secluded secluded
  | task _ _ ih => exact (ih (proper.mark (.began _)) (secluded.mark (.began _))).mark (.ended _ _)
  | leafChild _ _ _ makes =>
      exact ((recording ▸ makes).secluded secluded).aside (fun _ => leaf?_child _ _) rfl
  | compositeChild _ _ _ _ _ _ ih =>
      exact (ih (proper.composite _) (secluded.composite _)).aside (fun _ => leaf?_child _ _) rfl
  | socket => exact secluded.aside (fun _ => leaf?_socket _ _) rfl
  | literal _ binds => exact (recording ▸ binds).secluded secluded nofun
  | inside _ producer _ _ connects =>
      have connected := (recording ▸ connects).secluded proper.orderly.forest secluded (.inl ⟨_, _, producer.1⟩)
      exact connected.aside (fun _ => leaf?_edge _) rfl
  | insideFailed _ producer _ _ connects =>
      exact (recording ▸ connects).secluded proper.orderly.forest secluded (.inl ⟨_, _, producer.1⟩)
  | geometry _ creation =>
      have added := (recording ▸ creation).add_secluded secluded (fixed_ofLookup _) nofun nofun
      refine added.edit (fun _ => rfl) fun x hx => (mem_shared_geometry hx).imp_right fun new l there => ?_
      rw [new, Context.edit_assembly, leaf?_add_leaf, if_pos rfl] at there
      cases there
      cases creation
      nofun
  | top => exact secluded.share (fun _ => rfl) fun _ hx => mem_shared_top hx
  | viaTop _ _ _ ih => exact (ih (proper.mark (.began _)) (secluded.mark (.began _))).mark (.ended _ _)
  | viaGraph starts inner ih =>
      have built := ih (proper.starts starts) (starts.secluded secluded)
      refine built.edit (fun _ => rfl) fun y hy => .inl ?_
      rcases mem_shared_freeStanding hy with before | rfl
      · exact before
      · exact inner.shared starts.shared
  | outside producer _ connects =>
      exact (recording ▸ connects).secluded proper.orderly.forest secluded producer.origin

end Build

end MaterialGraph
