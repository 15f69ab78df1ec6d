import MaterialGraph.Proofs.Signature
import MaterialGraph.Proofs.Sockets

/-!
# What runs leave alone

While a composite is at work, nothing happens to what stands below a child of another composite, and nothing to what
stands below an older child of its own.

* `Equipped` : a leaf that does not forward a node owns one.
* `Endures` : such a leaf keeps its node.
* `Proper` : all that is known of a context on the way of a load.
* `Undisturbed` : from one context to another, nothing happens at or below a part.
* `Run.undisturbed` : which parts a run leaves alone.
-/

namespace MaterialGraph

set_option autoImplicit false

open Build Assembly

variable {σ : Type} {s : Recorder} {C : Catalog} {c c' c₁ : Context Recorder} {x y z : PartId}

/-! ## Leaves with nodes of their own -/

def Equipped (a : Assembly) : Prop := ∀ x l, a.leaf? x = some l → Forwards l.role = false → ∃ h, l.hold = .owned h

namespace Equipped

variable {a a' : Assembly} {l : Leaf}

theorem start : Equipped {} := fun x l there => by cases there

theorem congr (equipped : Equipped a) (leaf : ∀ x, a'.leaf? x = a.leaf? x) : Equipped a' :=
  fun x l there => equipped x l ((leaf x).symm.trans there)

theorem setLeaf {l' : Leaf} (equipped : Equipped a) (leaf : a.leaf? x = some l)
    (own : Forwards l'.role = false → ∃ h, l'.hold = .owned h) : Equipped (a.apply (.leaf x l')) := by
  intro y k there native
  rw [leaf?_leaf leaf] at there
  split at there
  · cases there
    exact own native
  · exact equipped y k there native

theorem add (equipped : Equipped a) (own : Forwards l.role = false → ∃ h, l.hold = .owned h) :
    Equipped (a.apply (.add (.leaf l))) := by
  intro y k there native
  rw [leaf?_add_leaf] at there
  split at there
  · cases there
    exact own native
  · exact equipped y k there native

end Equipped

namespace Build

variable {r : Renderer σ} {d d' : Context σ}

theorem CreatesLeaf.owns {type : NodeType} {role : Role} {settings : List (InputKey × Bound)} {name : Option String}
    {l : Leaf} (creation : CreatesLeaf r type role settings name d (.ok l) d') : ∃ h, l.hold = .owned h := by
  cases creation
  exact ⟨_, rfl⟩

theorem equipped_released {l : Leaf} {name : String} (equipped : Equipped d.assembly)
    (leaf : d.assembly.leaf? x = some l) (role : l.role = .displacement name) :
    Equipped (released r x l d).assembly := by
  rw [released_assembly]
  refine equipped.setLeaf leaf fun native => ?_
  rw [role] at native
  cases native

theorem BindsLeaf.equipped {l : Leaf} {b : Binding} {res : Result Unit} (binds : BindsLeaf r x l b d res d')
    (leaf : d.assembly.leaf? x = some l) (equipped : Equipped d.assembly) : Equipped d'.assembly := by
  have empty := leaf?_released (r := r) leaf
  cases binds with
  | unchanged | called => exact equipped
  | params p' role =>
      refine equipped.setLeaf leaf fun _ => equipped x l leaf ?_
      rw [role]
      rfl
  | forwarded role =>
      refine equipped.setLeaf leaf fun native => ?_
      rw [role] at native
      cases native
  | redirected role =>
      refine (equipped_released equipped leaf role).setLeaf empty fun native => ?_
      rw [role] at native
      cases native
  | emptied role => exact equipped_released equipped leaf role
  | lost role _ creation =>
      rw [creation.assembly]
      exact equipped_released equipped leaf role
  | replaced role _ creation =>
      rw [Context.edit_assembly, creation.assembly]
      exact (equipped_released equipped leaf role).setLeaf empty fun _ => creation.owns

theorem Binds.equipped {b : Binding} (binds : Binds r x b d d') (equipped : Equipped d.assembly) :
    Equipped d'.assembly := by
  induction binds with
  | refl => exact equipped
  | remark _ _ _ ih => exact ih
  | leaf _ _ leaf binds ih => exact binds.equipped leaf ih

theorem Step.equipped (step : Step r d d') (equipped : Equipped d.assembly) : Equipped d'.assembly := by
  cases step with
  | message => exact equipped
  | mark mark => cases mark <;> exact equipped
  | note note =>
      cases note with
      | child => exact equipped.congr fun _ => leaf?_child _ _
      | socket => exact equipped.congr fun _ => leaf?_socket _ _
      | edge => exact equipped.congr fun _ => leaf?_edge _
  | share shares => cases shares <;> exact equipped
  | composite g => exact equipped.congr fun _ => leaf?_add_composite _
  | forward forwards =>
      refine equipped.add fun native => ?_
      rw [forwards] at native
      cases native
  | refused _ creation =>
      rw [creation.assembly]
      exact equipped
  | create _ _ creation =>
      rw [Context.edit_assembly, creation.assembly]
      exact equipped.add fun _ => creation.owns
  | literal binds => exact binds.equipped equipped
  | passes passes =>
      cases passes with
      | nothing => exact equipped
      | handle _ _ binds => exact binds.equipped equipped

theorem Steps.equipped (steps : Steps r d d') (equipped : Equipped d.assembly) : Equipped d'.assembly := by
  induction steps with
  | refl => exact equipped
  | tail _ step ih => exact step.equipped ih

end Build

/-- A leaf that does not forward a node stays what it is and keeps its node. -/
def Endures (a a' : Assembly) : Prop :=
  ∀ x l l', a.leaf? x = some l → a'.leaf? x = some l' → Forwards l'.role = false →
    form l.role = form l'.role ∧ l.hold = l'.hold

namespace Endures

variable {a a₁ a' : Assembly} {l l' : Leaf}

theorem of_leaf (same : ∀ x l, a.leaf? x = some l → a'.leaf? x = some l) : Endures a a' := by
  intro x l l' there there' _
  cases (same x l there).symm.trans there'
  exact ⟨rfl, rfl⟩

theorem congr (leaf : ∀ x, a'.leaf? x = a.leaf? x) : Endures a a' := of_leaf fun x _ there => (leaf x).trans there

theorem refl (a : Assembly) : Endures a a := of_leaf fun _ _ there => there

theorem add (a : Assembly) (l : Leaf) : Endures a (a.apply (.add (.leaf l))) := by
  refine of_leaf fun x k there => ?_
  rw [leaf?_add_leaf, if_neg (Nat.ne_of_lt (lt_size_of_leaf? there))]
  exact there

theorem trans (h₁ : Endures a a₁) (more : Extends a a₁) (h₂ : Endures a₁ a') : Endures a a' := by
  intro x l l' there there' native
  obtain ⟨l₁, there₁⟩ := more.leaf there
  obtain ⟨form₂, hold₂⟩ := h₂ x l₁ l' there₁ there' native
  rw [← forwards_form, ← form₂, forwards_form] at native
  obtain ⟨form₁, hold₁⟩ := h₁ x l l₁ there there₁ native
  exact ⟨form₁.trans form₂, hold₁.trans hold₂⟩

theorem setLeaf (leaf : a.leaf? x = some l)
    (keeps : Forwards l'.role = false → form l.role = form l'.role ∧ l.hold = l'.hold) :
    Endures a (a.apply (.leaf x l')) := by
  intro y k k' there there' native
  rw [leaf?_leaf leaf] at there'
  split at there'
  · next same =>
    cases there'
    cases leaf.symm.trans (same ▸ there)
    exact keeps native
  · cases there.symm.trans there'
    exact ⟨rfl, rfl⟩

/-- A mapped leaf stays as it is. -/
theorem mapped {m : Mapping} (endures : Endures a a') (leaf : a.leaf? x = some l) (there : a'.leaf? x = some l')
    (role : l'.role = .mapped m) : l' = l := by
  obtain ⟨same, hold⟩ := endures x l l' leaf there (by rw [role]; rfl)
  rw [role] at same
  cases l
  cases l'
  cases role
  cases hold
  cases form_eq_mapped.1 same
  rfl

end Endures

namespace Build

variable {r : Renderer σ} {d d' : Context σ}

theorem BindsLeaf.endures {l : Leaf} {b : Binding} {res : Result Unit} (binds : BindsLeaf r x l b d res d')
    (leaf : d.assembly.leaf? x = some l) : Endures d.assembly d'.assembly := by
  have gone {hold : Hold} {name : String} (role : l.role = .displacement name) :
      Endures d.assembly (d.assembly.apply (.leaf x { l with hold })) := by
    refine .setLeaf leaf fun native => ?_
    rw [role] at native
    cases native
  have again {hold : Hold} {name : String} (role : l.role = .displacement name) :
      Endures d.assembly ((released r x l d).assembly.apply (.leaf x { l with hold })) := by
    have empty := leaf?_released (r := r) leaf
    refine Endures.trans ?_ (.of_rebinds (rebinds_released leaf)) (.setLeaf empty fun native => ?_)
    · rw [released_assembly]
      exact gone role
    · rw [role] at native
      cases native
  cases binds with
  | unchanged | called => exact .refl _
  | params p' role => exact .setLeaf leaf fun _ => ⟨by rw [role]; rfl, rfl⟩
  | forwarded role =>
      refine .setLeaf leaf fun native => ?_
      rw [role] at native
      cases native
  | redirected role => exact again role
  | emptied role =>
      rw [released_assembly]
      exact gone role
  | lost role _ creation =>
      rw [creation.assembly, released_assembly]
      exact gone role
  | replaced role _ creation =>
      rw [Context.edit_assembly, creation.assembly]
      exact again role

theorem Binds.endures {b : Binding} (binds : Binds r x b d d') : Endures d.assembly d'.assembly := by
  induction binds with
  | refl => exact .refl _
  | remark _ _ _ ih => exact ih
  | leaf before _ leaf binds ih => exact ih.trans (.of_rebinds before.rebinds) (binds.endures leaf)

theorem Step.endures (step : Step r d d') : Endures d.assembly d'.assembly := by
  cases step with
  | message => exact .refl _
  | mark mark => cases mark <;> exact .refl _
  | note note =>
      cases note with
      | child => exact .congr fun _ => leaf?_child _ _
      | socket => exact .congr fun _ => leaf?_socket _ _
      | edge => exact .congr fun _ => leaf?_edge _
  | share shares => cases shares <;> exact .refl _
  | composite g => exact .congr fun _ => leaf?_add_composite _
  | forward => exact .add _ _
  | refused _ creation =>
      rw [creation.assembly]
      exact .refl _
  | create _ _ creation =>
      rw [Context.edit_assembly, creation.assembly]
      exact .add _ _
  | literal binds => exact binds.endures
  | passes passes =>
      cases passes with
      | nothing => exact .refl _
      | handle _ _ binds => exact binds.endures

theorem Steps.endures (steps : Steps r d d') : Endures d.assembly d'.assembly := by
  induction steps with
  | refl => exact .refl _
  | tail before step ih => exact ih.trans (Steps.extends before) step.endures

end Build

/-! ## Contexts on the way of a load -/

/-- Children own what their nodes call for, the parts form a forest, leaves have their nodes, and sockets stand for
inputs that name interface inputs. -/
structure Proper (s : Recorder) (C : Catalog) (c : Context Recorder) : Prop where
  keeps : Keeps s c
  orderly : Orderly c
  equipped : Equipped c.assembly
  wired : Wired C c.assembly

namespace Proper

theorem start (s : Recorder) : Proper s C { system := s } :=
  ⟨.start (.start s), .start s, .start, .start⟩

theorem mark {e : Edit} (proper : Proper s C c) (mark : IsMark e) : Proper s C (c.edit e) where
  keeps := proper.keeps.mark mark
  orderly := (Grows.mark proper.orderly mark 0).orderly
  equipped := by cases mark <;> exact proper.equipped
  wired := by cases mark <;> exact proper.wired

theorem message {e : Event} (proper : Proper s C c) (message : IsMessage e) : Proper s C (c.push e) where
  keeps := proper.keeps.push message
  orderly := (Grows.message Recorder.renderer proper.orderly message 0).orderly
  equipped := proper.equipped
  wired := proper.wired

theorem composite (proper : Proper s C c) (g : Graph) : Proper s C (c.edit (.add (.composite { graph := g }))) where
  keeps := proper.keeps.composite g
  orderly := (Grows.addComposite proper.orderly g 0).orderly
  equipped := proper.equipped.congr fun _ => leaf?_add_composite _
  wired := proper.wired.addComposite g

theorem barren (barren : Barren Recorder.renderer c c') (proper : Proper s C c) : Proper s C c' where
  keeps := barren.keeps proper.keeps
  orderly := (barren.grows proper.orderly 0).orderly
  equipped := barren.steps.equipped proper.equipped
  wired := barren.wired proper.wired

theorem starts {g : NodeGraph} (starts : Starts g c x c') (proper : Proper s C c) : Proper s C c' where
  keeps := starts.keeps proper.keeps
  orderly := (starts.grows proper.orderly).1.orderly
  equipped := Steps.equipped (r := Recorder.renderer) starts.steps proper.equipped
  wired := starts.wired proper.wired

variable {W : Env Recorder}

theorem run {ph : Phase} {id : PartId} {n : Nat} (recording : W.renderer = Recorder.renderer) (run : Run W ph id n c c')
    (proper : Proper s W.catalog c) : Proper s W.catalog c' where
  keeps := run.keepsAll recording proper.keeps
  orderly := (run.grows proper.orderly).orderly
  equipped := run.steps.equipped proper.equipped
  wired := run.wired proper.wired

theorem works {harvest harvest' : Harvest} (recording : W.renderer = Recorder.renderer)
    (works : Works W harvest c harvest' c') (proper : Proper s W.catalog c) : Proper s W.catalog c' where
  keeps := works.keeps recording proper.keeps
  orderly := (works.grows proper.orderly).orderly
  equipped := works.steps.equipped proper.equipped
  wired := works.wired proper.wired

end Proper

/-! ## Nothing happens to a node -/

namespace Build

/-- A node that is there is left alone while another is created. -/
theorem CreatesLeaf.node?_eq {type : NodeType} {role : Role} {settings : List (InputKey × Bound)}
    {name : Option String} {res : Result Leaf} {h : Handle}
    (creation : CreatesLeaf Recorder.renderer type role settings name c res c') (old : h.id < c.system.created) :
    c'.system.node? h = c.system.node? h := by
  have other {g : Handle} (reply : (Recorder.create type c.system).1 = .ok g) : h ≠ g := by
    rintro rfl
    rw [(Recorder.create_ok reply).1] at old
    exact Nat.lt_irrefl _ old
  have setup {g : Handle} {c₁ : Context Recorder} (reply : (Recorder.create type c.system).1 = .ok g)
      (acts : Acts Recorder.renderer (IsSetting g settings) (c.created Recorder.renderer type) c₁) :
      c₁.system.node? h = c.system.node? h := by
    induction acts with
    | refl => exact (Recorder.node?_create reply).trans (if_neg (other reply))
    | act _ ha ih =>
        refine (Recorder.node?_act_of_ne (.ok ()) ?_).trans ih
        cases ha <;> exact fun he => other reply (Option.some.inj he).symm
  cases creation with
  | refused reply =>
      change (Recorder.create type c.system).2.node? h = _
      rw [Recorder.create_error reply]
  | done reply acts => exact setup reply acts.settings
  | undone reply acts =>
      refine (Recorder.node?_act_of_ne (.ok ()) ?_).trans (setup reply acts.settings)
      exact fun he => other reply (Option.some.inj he).symm

theorem node?_released {l k : Leaf} {h : Handle} (keeps : Keeps s c) (leaf : c.assembly.leaf? x = some l)
    (there : c.assembly.leaf? y = some k) (own : k.hold.owned? = some h) (other : y ≠ x) :
    (released Recorder.renderer x l c).system.node? h = c.system.node? h ∧
      (released Recorder.renderer x l c).system.created = c.system.created := by
  unfold released
  cases mine : l.hold.owned? with
  | none => exact ⟨rfl, rfl⟩
  | some g =>
      refine ⟨Recorder.node?_act_of_ne (.ok ()) fun he => ?_, Recorder.created_act _⟩
      cases he
      exact other (keeps.now.single there leaf own mine)

/-- To bind an input of a leaf leaves the nodes of all other leaves alone. -/
theorem BindsLeaf.node?_eq {l k : Leaf} {b : Binding} {res : Result Unit} {h : Handle}
    (binds : BindsLeaf Recorder.renderer x l b c res c') (keeps : Keeps s c) (leaf : c.assembly.leaf? x = some l)
    (there : c.assembly.leaf? y = some k) (own : k.hold.owned? = some h) (other : y ≠ x) :
    c'.system.node? h = c.system.node? h := by
  obtain ⟨gone, created⟩ := node?_released keeps leaf there own other
  have old : h.id < (released Recorder.renderer x l c).system.created := created ▸ keeps.now.numbered there own
  cases binds with
  | unchanged | params | forwarded => rfl
  | called key _ mem held =>
      refine Recorder.node?_act_of_ne (.ok ()) fun he => ?_
      cases he
      have mine := (keeps.now.native leaf (native_of_mem_inputKeys mem)).symm.trans held
      exact other (keeps.now.single there leaf own mine)
  | redirected | emptied => exact gone
  | lost _ _ creation => exact (creation.node?_eq old).trans gone
  | replaced _ _ creation => exact (creation.node?_eq old).trans gone

end Build

/-! ## Nothing happens to a part -/

/-- The input to which a connection has been made. -/
def Event.connected? : Event → Option (PartId × Input)
  | edited (.ended (.connection _ _ x i) true) => some (x, i)
  | _ => none

theorem Event.IsSilent.connected? {e : Event} (h : e.IsSilent) : e.connected? = none := by
  unfold Event.connected?
  split
  · exact h.elim
  · rfl

/-- Nothing happens at a part or below it, and no connection to it is made. -/
structure Undisturbed (x : PartId) (c c' : Context Recorder) : Prop where
  composite : ∀ {y}, Below c.assembly x y → c'.assembly.composite? y = c.assembly.composite? y
  leaf : ∀ {y}, Below c.assembly x y → c'.assembly.leaf? y = c.assembly.leaf? y
  node : ∀ {y l h}, Below c.assembly x y → c.assembly.leaf? y = some l → l.hold.owned? = some h →
    c'.system.node? h = c.system.node? h
  unmarked : Only (fun e => ∀ i, e.connected? ≠ some (x, i)) c c'

namespace Undisturbed

theorem refl (x : PartId) (c : Context Recorder) : Undisturbed x c c :=
  ⟨fun _ => rfl, fun _ => rfl, fun _ _ _ => rfl, .refl c⟩

theorem below (h : Undisturbed x c c') (below : Below c.assembly x y) : Below c'.assembly x y := by
  induction below with
  | refl => exact .refl
  | child above child ih => exact ih.child ((child?_congr (h.composite above) _).trans child)

theorem below_of (h : Undisturbed x c c') (below : Below c'.assembly x y) : Below c.assembly x y := by
  induction below with
  | refl => exact .refl
  | child _ child ih => exact ih.child ((child?_congr (h.composite ih) _).symm.trans child)

theorem trans (h₁ : Undisturbed x c c₁) (h₂ : Undisturbed x c₁ c') : Undisturbed x c c' where
  composite hy := (h₂.composite (h₁.below hy)).trans (h₁.composite hy)
  leaf hy := (h₂.leaf (h₁.below hy)).trans (h₁.leaf hy)
  node hy there own := (h₂.node (h₁.below hy) ((h₁.leaf hy).trans there) own).trans (h₁.node hy there own)
  unmarked := h₁.unmarked.trans h₂.unmarked

/-- Silent work in which no part changes. -/
theorem silent (silent : Silent c c') (assembly : c'.assembly = c.assembly)
    (node : ∀ {y l h}, c.assembly.leaf? y = some l → l.hold.owned? = some h → c'.system.node? h = c.system.node? h) :
    Undisturbed x c c' where
  composite _ := by rw [assembly]
  leaf _ := by rw [assembly]
  node _ := node
  unmarked := silent.mono fun e he i => by simp [he.connected?]

theorem message {e : Event} (message : IsMessage e) : Undisturbed x c (c.push e) where
  composite _ := rfl
  leaf _ := rfl
  node _ _ _ := rfl
  unmarked := .event rfl fun _ => by cases message <;> nofun

theorem creates {type : NodeType} {role : Role} {settings : List (InputKey × Bound)} {name : Option String}
    {res : Result Leaf} (keeps : Keeps s c)
    (creation : CreatesLeaf Recorder.renderer type role settings name c res c') : Undisturbed x c c' :=
  silent creation.silent creation.assembly fun there own => creation.node?_eq (keeps.now.numbered there own)

/-- An edit elsewhere. -/
theorem edit {e : Edit} (composite : ∀ y, Below c.assembly x y →
      (c.assembly.apply e).composite? y = c.assembly.composite? y)
    (leaf : ∀ y, Below c.assembly x y → (c.assembly.apply e).leaf? y = c.assembly.leaf? y)
    (unmarked : (Event.edited e).connected? = none) : Undisturbed x c (c.edit e) where
  composite := composite _
  leaf := leaf _
  node _ _ _ := rfl
  unmarked := .event rfl fun i => by simp [unmarked]

/-- An edit of no part. -/
theorem aside {e : Edit} (parts : (c.assembly.apply e).parts = c.assembly.parts)
    (unmarked : (Event.edited e).connected? = none) : Undisturbed x c (c.edit e) := by
  have same (y : PartId) : (c.assembly.apply e).part? y = c.assembly.part? y := by rw [part?, part?, parts]
  refine edit (fun y _ => ?_) (fun y _ => ?_) unmarked
  · rw [composite?, composite?, same]
  · rw [leaf?, leaf?, same]

/-- A part is added. -/
theorem add (there : ∀ y, Below c.assembly x y → y < c.assembly.size) (q : Part) :
    Undisturbed x c (c.edit (.add q)) := by
  have same (y : PartId) (hy : Below c.assembly x y) : (c.assembly.apply (.add q)).part? y = c.assembly.part? y :=
    part?_add_of_ne q (Nat.ne_of_lt (there y hy))
  refine edit (fun y hy => ?_) (fun y hy => ?_) rfl
  · rw [composite?, composite?, same y hy]
  · rw [leaf?, leaf?, same y hy]

/-- A composite that does not stand there changes. -/
theorem note {e : Edit} {id : PartId} {f : Composite → Composite}
    (apply : c.assembly.apply e = c.assembly.modifyComposite id f)
    (elsewhere : ¬ Below c.assembly x id) (unmarked : (Event.edited e).connected? = none) :
    Undisturbed x c (c.edit e) := by
  refine edit (fun y hy => ?_) (fun y _ => ?_) unmarked
  · rw [apply, composite?_modifyComposite, if_neg]
    rintro rfl
    exact elsewhere hy
  · rw [apply, leaf?_modifyComposite]

/-- Leaves below a part are bound that has nothing below it in common with the other. -/
theorem binds {b : Binding} (keeps : Keeps s c) (binds : Binds Recorder.renderer z b c c')
    (apart : ∀ y, Below c.assembly x y → ¬ Below c.assembly z y) : Undisturbed x c c' := by
  induction binds with
  | refl => exact .refl x c
  | remark _ margin text ih => exact ih.trans (.message (.remark margin text))
  | @leaf c₁ c₂ u l res before below leaf bindsLeaf ih =>
      have rebinds := before.rebinds
      have elsewhere {y : PartId} (hy : Below c₁.assembly x y) : y ≠ u := by
        rintro rfl
        exact apart y (rebinds.below.1 hy) (rebinds.below.1 below)
      have changes := bindsLeaf.rebinds leaf
      refine ih.trans ⟨fun _ => changes.composite _, fun hy => changes.other _ (elsewhere hy), fun hy there own => ?_,
        bindsLeaf.silent.mono fun e he i => by simp [he.connected?]⟩
      exact bindsLeaf.node?_eq (before.keeps keeps) leaf there own (elsewhere hy)

theorem connects {u : PartId} {success : Bool} (keeps : Keeps s c)
    (connects : Connects Recorder.renderer u z success c c')
    (apart : ∀ y, Below c.assembly x y → ¬ Below c.assembly z y) : Undisturbed x c c' := by
  obtain @⟨c₁, output, i, passes⟩ := connects
  have begun : Undisturbed x c (c.edit (.began (.connection u output z i))) :=
    aside rfl rfl
  have bound : Undisturbed x (c.edit (.began (.connection u output z i))) c₁ := by
    cases passes with
    | nothing => exact .refl _ _
    | handle _ _ bindsAll => exact binds (keeps.mark (.began _)) bindsAll apart
  have ne : z ≠ x := by
    rintro rfl
    exact apart z .refl .refl
  have ended : Only (fun e => ∀ i, e.connected? ≠ some (x, i)) c₁
      (c₁.edit (.ended (.connection u output z i) success)) := by
    refine .event rfl fun j => ?_
    cases success <;> simp [Event.connected?, ne]
  exact (begun.trans bound).trans ⟨fun _ => rfl, fun _ => rfl, fun _ _ _ => rfl, ended⟩

end Undisturbed

/-! ## Runs -/

theorem Orderly.adopted_of_child? {d : Context σ} {id : PartId} {name : String} (orderly : Orderly d)
    (child : d.assembly.child? id name = some x) : x ∈ adopted d.journal :=
  Tidy.mem_adopted orderly.faithful.fits ⟨id, name, by rw [orderly.faithful.assembly, child]⟩

theorem isChild_of_below {a : Assembly} (child : a.IsChild x) (below : Below a x y) : a.IsChild y := by
  cases below with
  | refl => exact child
  | child _ last => exact ⟨_, _, last⟩

theorem lt_size_of_below {a : Assembly} (forest : a.Forest) (child : a.IsChild x) (below : Below a x y) : y < a.size := by
  obtain ⟨_, _, child⟩ := isChild_of_below child below
  exact (forest.descends child).2

def Alone (c : Context σ) (id : PartId) : Prop := id < c.assembly.size ∧ id ∉ adopted c.journal

theorem alone_added {d : Context σ} (orderly : Orderly d) (g : Graph) :
    Alone (d.edit (.add (.composite { graph := g }))) d.assembly.size := by
  refine ⟨?_, fun h => Nat.lt_irrefl _ (orderly.lt_of_adopted h)⟩
  rw [Context.edit_assembly, size_add]
  exact Nat.lt_succ_self _

/-- What graphs share is no child. -/
theorem alone_of_sharing {d : Context σ} (orderly : Orderly d) (shared : x ∈ sharing d.journal) : Alone d x :=
  ⟨orderly.lt_of_sharing shared, orderly.tidy.bounds.2.2 x shared⟩

theorem Alone.message {d : Context σ} {e : Event} (alone : Alone d x) (message : IsMessage e) :
    Alone (d.push e) x := by
  refine ⟨alone.1, fun h => alone.2 ?_⟩
  cases message <;> exact h

theorem Build.Run.alone {W : Env σ} {d d' : Context σ} {ph : Phase} {id j : PartId} {n : Nat}
    (run : Run W ph j n d d') (orderly : Orderly d) (alone : Alone d id) : Alone d' id :=
  ⟨Nat.lt_of_lt_of_le alone.1 run.steps.extends.size, (run.grows orderly).not_adopted alone.1 alone.2⟩

/-- What is done by a run in the composite `id`, in which inputs are set in parts numbered from `n` on, is not done to
the child `x` of `p`. -/
structure Aloof (c : Context σ) (ph : Phase) (id : PartId) (n : Nat) (p x : PartId) : Prop where
  child : ∃ name, c.assembly.child? p name = some x
  other : x < n ∨ ph = .asking ∧ id < n
  outside : id < x ∨ Alone c id

namespace Aloof

variable {r : Renderer σ} {W : Env σ} {d d' : Context σ} {ph : Phase} {id p : PartId} {n : Nat}

theorem run {m : Nat} (aloof : Aloof d ph id n p x) (orderly : Orderly d) (run : Run W ph id m d d') :
    Aloof d' ph id n p x where
  child :=
    let ⟨name, child⟩ := aloof.child
    ⟨name, run.keeps child⟩
  other := aloof.other
  outside := aloof.outside.imp_right (run.alone orderly)

/-- No composite that has been added since belongs to an older child. -/
theorem fresh (orderly : Orderly d) (child : ∃ name, d.assembly.child? p name = some x) (g : Graph) :
    Aloof (d.edit (.add (.composite { graph := g }))) ph d.assembly.size d.assembly.size p x := by
  obtain ⟨name, child⟩ := child
  exact ⟨⟨name, (child?_add_composite g name).trans child⟩, .inl (orderly.forest.descends child).2,
    .inr (alone_added orderly g)⟩

/-- What graphs share belongs to no child. -/
theorem shared (orderly : Orderly d) (child : ∃ name, d.assembly.child? p name = some x)
    (shared : id ∈ sharing d.journal) (hn : x < n) : Aloof d ph id n p x :=
  ⟨child, .inl hn, .inr (alone_of_sharing orderly shared)⟩

theorem not_below (aloof : Aloof d ph id n p x) (orderly : Orderly d) : ¬ Below d.assembly x id := by
  intro below
  rcases aloof.outside with lt | ⟨-, new⟩
  · exact absurd (below.le orderly.forest.descends) (Nat.not_le.2 lt)
  · cases below with
    | refl =>
        obtain ⟨name, child⟩ := aloof.child
        exact new (orderly.adopted_of_child? child)
    | child _ last => exact new (orderly.adopted_of_child? last)

/-- Nothing stands both below the child and below a part that takes inputs. -/
theorem apart (aloof : Aloof d ph id n p x) (orderly : Orderly d) (takes : Takes ph id n d z) (y : PartId)
    (hx : Below d.assembly x y) : ¬ Below d.assembly z y := by
  intro hz
  have forest := orderly.forest
  have lt : x < n := by
    rcases aloof.other with lt | ⟨rfl, lt⟩
    · exact lt
    · obtain ⟨rfl, from'⟩ := takes
      exact absurd from' (Nat.not_le.2 lt)
  obtain ⟨name, child⟩ := aloof.child
  have ne : z ≠ x := by
    rintro rfl
    exact absurd takes.2 (Nat.not_le.2 lt)
  rcases forest.below_or_below hx hz with below | below
  · cases ph with
    | asking =>
        obtain ⟨rfl, -⟩ := takes
        exact aloof.not_below orderly below
    | giving =>
        obtain ⟨⟨name', child'⟩, -⟩ := takes
        cases below with
        | refl => exact ne rfl
        | child above last =>
            obtain ⟨rfl, -⟩ := forest.once child' last
            exact aloof.not_below orderly above
  · cases below with
    | refl => exact ne rfl
    | child above last =>
        -- the part would stand above the composite of the child
        obtain ⟨rfl, -⟩ := forest.once child last
        have above : n ≤ p := Nat.le_trans takes.2 (above.le forest.descends)
        exact Nat.lt_irrefl p (Nat.lt_of_lt_of_le (Nat.lt_trans (forest.descends child).1 lt) above)

end Aloof

namespace Build

variable {W : Env Recorder} {id p : PartId} {n : Nat}

theorem Barren.undisturbed (barren : Barren Recorder.renderer c c') (keeps : Keeps s c)
    (there : ∀ y, Below c.assembly x y → y < c.assembly.size) : Undisturbed x c c' := by
  induction barren with
  | refl => exact .refl x _
  | trans first _ ih₁ ih₂ =>
      have before := ih₁ keeps there
      refine before.trans (ih₂ (first.keeps keeps) fun y hy => ?_)
      exact Nat.lt_of_lt_of_le (there y (before.below_of hy)) first.steps.extends.size
  | message _ message => exact .message message
  | task _ ih =>
      exact (Undisturbed.aside rfl rfl).trans ((ih (keeps.mark (.began _)) there).trans (.aside rfl rfl))
  | failed _ creation => exact .creates keeps creation
  | composite _ g => exact .add there _

/-- A run leaves a child alone that has nothing to do with its composite, or is older than the run. -/
theorem Run.undisturbed (recording : W.renderer = Recorder.renderer) {ph : Phase} (run : Run W ph id n c c')
    (proper : Proper s W.catalog c) (aloof : Aloof c ph id n p x) : Undisturbed x c c' := by
  have there {c : Context Recorder} (proper : Proper s W.catalog c)
      (child : ∃ name, c.assembly.child? p name = some x) (y : PartId) (hy : Below c.assembly x y) :
      y < c.assembly.size :=
    lt_size_of_below proper.orderly.forest ⟨p, child⟩ hy
  have noted {c c₁ : Context Recorder} {ph : Phase} {id : PartId} {n : Nat} (before : Undisturbed x c c₁)
      (proper : Proper s W.catalog c) (aloof : Aloof c ph id n p x) : ¬ Below c₁.assembly x id := fun below =>
    aloof.not_below proper.orderly (before.below_of below)
  induction run with
  | refl => exact .refl x _
  | trans first _ ih₁ ih₂ =>
      exact (ih₁ proper aloof).trans (ih₂ (proper.run recording first) (aloof.run proper.orderly first))
  | message _ message => exact .message message
  | barren barren => exact (recording ▸ barren).undisturbed proper.keeps (there proper aloof.child)
  | @task id n c c₁ name success inner asks ih =>
      have begun : Undisturbed x c (c.edit (.began (.child id name))) := .aside rfl rfl
      have younger : x < c.assembly.size := there proper aloof.child x .refl
      exact begun.trans ((ih (proper.mark (.began _)) ⟨aloof.child, .inl younger, aloof.outside⟩).trans (.aside rfl rfl))
  | @leafChild id n c c₁ node k l composite _ _ makes =>
      have made : Undisturbed x c c₁ := by
        rw [recording] at makes
        cases makes with
        | forward => exact .refl x c
        | create _ creation => exact .creates proper.keeps creation
      have added : Undisturbed x c (c₁.edit (.add (.leaf l))) := made.trans (.add (fun y hy => by
        rw [makes.assembly] at hy ⊢
        exact there proper aloof.child y hy) _)
      exact added.trans (.note rfl (noted added proper aloof) rfl)
  | @compositeChild id n c c₁ node k g composite _ _ _ _ inner ih =>
      have added : Undisturbed x c (c.edit (.add (.composite { graph := .named g }))) := .add (there proper aloof.child) _
      have built := added.trans (ih (proper.composite _) (.fresh proper.orderly aloof.child _))
      exact built.trans (.note rfl (noted built proper aloof) rfl)
  | socket => exact .note rfl (aloof.not_below proper.orderly) rfl
  | literal takes binds => exact .binds proper.keeps (recording ▸ binds) (aloof.apart proper.orderly takes)
  | @inside id u y n c c₁ k e _ _ consumer _ connects =>
      have connected : Undisturbed x c c₁ :=
        .connects proper.keeps (recording ▸ connects) (aloof.apart proper.orderly consumer.takes)
      exact connected.trans (.note rfl (noted connected proper aloof) rfl)
  | insideFailed _ _ consumer _ connects =>
      exact .connects proper.keeps (recording ▸ connects) (aloof.apart proper.orderly consumer.takes)
  | @geometry ph id n c c₁ g l quantity _ creation =>
      rw [recording] at creation
      have made : Undisturbed x c c₁ := .creates proper.keeps creation
      have added : Undisturbed x c (c₁.edit (.add (.leaf l))) := made.trans (.add (fun y hy => by
        rw [creation.assembly] at hy ⊢
        exact there proper aloof.child y hy) _)
      exact added.trans (.aside rfl rfl)
  | top =>
      exact (Undisturbed.add (there proper aloof.child) _).trans (.aside rfl rfl)
  | @viaTop ph id t n c c₁ name success top inner asks ih =>
      have begun : Undisturbed x c (c.edit (.began (.child t name))) := .aside rfl rfl
      have shared : t ∈ sharing c.journal := proper.orderly.sharing_of_mem_shared (mem_shared.2 (.inl top))
      have younger : x < c.assembly.size := there proper aloof.child x .refl
      have aside : Aloof (c.edit (.began (.child t name))) .giving t c.assembly.size p x :=
        .shared (proper.mark (.began _)).orderly aloof.child shared younger
      exact begun.trans ((ih (proper.mark (.began _)) aside).trans (.aside rfl rfl))
  | @viaGraph ph id u n c c₁ c₂ g starts inner ih =>
      have started : Undisturbed x c c₁ := by
        cases starts with
        | first =>
            exact (Undisturbed.add (there proper aloof.child) _).trans
              (.aside rfl rfl)
        | again => exact .aside rfl rfl
      have child : ∃ name, c₁.assembly.child? p name = some x := by
        obtain ⟨name, child⟩ := aloof.child
        exact ⟨name, (starts.child? p name).trans child⟩
      have aside : Aloof c₁ .asking u c.assembly.size p x :=
        .shared (proper.starts starts).orderly child (starts.grows proper.orderly).2 (there proper aloof.child x .refl)
      exact (started.trans (ih (proper.starts starts) aside)).trans (.aside rfl rfl)
  | outside _ takes connects =>
      exact .connects proper.keeps (recording ▸ connects) (aloof.apart proper.orderly takes)

end Build

end MaterialGraph
