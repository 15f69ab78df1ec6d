import Mathlib.Data.List.Nodup
import MaterialGraph.Loader
import MaterialGraph.Proofs.Journal
import MaterialGraph.Proofs.Trimming
import MaterialGraph.Renderer.Recorder

/-!
# Listed paths as targets

What is selected, what is listed as renderable, and what a target leads to are found in three ways. They agree on
documents whose elements can be told apart by their names.

* `Selection.get_choose` : the slot of a kind after the targets and all that is discovered.
* `Selection.slot_of_choose` : what is selected for a kind, from its own target and the order of discovery alone.
* `Catalog.head?_renderables` : the path that is listed first is that of the first element that exposes the kind.
* `Document.descendant?_namePath` : the path of an element of the top level leads to it.
* `load_of_listed_targets` : to aim at what is listed first is to aim at nothing.
-/

namespace MaterialGraph

set_option autoImplicit false

/-! ## Slots -/

/-- A slot after an output has been found for it, or none. -/
def Slot.fill : Slot → Option Candidate → Slot
  | .empty, some c => .filled c
  | s, _ => s

theorem Slot.fill_none (s : Slot) : s.fill none = s := by cases s <;> rfl

theorem Slot.fill_or (s : Slot) (a b : Option Candidate) : (s.fill a).fill b = s.fill (a.or b) := by
  cases s <;> cases a <;> cases b <;> rfl

def Candidate.isOf (k : OutputKind) (c : Candidate) : Bool := c.kind? = some k

theorem Candidate.kind?_of_find? {k : OutputKind} {l : List Candidate} {c : Candidate}
    (found : l.find? (isOf k) = some c) : c.kind? = some k := by
  have kind : c.isOf k = true := List.find?_some found
  exact of_decide_eq_true kind

namespace Selection

variable {C : Catalog}

/-- A single output fills the slot of its kind, if that is the wanted one. -/
theorem get_offer (wanted : Option OutputKind) (s : Selection) (c : Candidate) (k : OutputKind) :
    (offer wanted s c).get k = (s.get k).fill (if c.isOf k ∧ wanted.all (· = k) then some c else none) := by
  unfold offer Candidate.isOf
  cases kind : c.kind? with
  | none => simp [Slot.fill_none]
  | some k' =>
      by_cases same : k' = k
      · subst same
        cases held : s.get k' with
        | empty =>
            by_cases hw : wanted.all (· = k') = true
            · simp [Slot.fill, hw, held]
            · simp [Slot.fill, hw, held]
        | disabled | filled => simp [Slot.fill, held]
      · have other : ((s.set k' (.filled c)).get k) = s.get k := PerKind.get_set_of_ne s same _
        simp only [decide_eq_true_eq, Option.some.injEq, same, false_and, if_false, Slot.fill_none]
        split
        · exact other
        · rfl

theorem get_foldl_offer (wanted : Option OutputKind) (l : List Candidate) (s : Selection) (k : OutputKind) :
    (l.foldl (offer wanted) s).get k =
      (s.get k).fill (if wanted.all (· = k) then l.find? (Candidate.isOf k) else none) := by
  induction l generalizing s with
  | nil => simp [Slot.fill_none]
  | cons c l ih =>
      rw [List.foldl_cons, ih, get_offer, Slot.fill_or, List.find?_cons]
      cases c.isOf k <;> cases wanted.all (· = k) <;> simp

/-- Without a wanted kind, elements fill a slot with the first output of its kind. -/
theorem get_foldl_offerElement (es : List Element) (s : Selection) (k : OutputKind) :
    (es.foldl (offerElement C none) s).get k =
      (s.get k).fill (es.findSome? fun e => (C.outputsOf e).find? (Candidate.isOf k)) := by
  induction es generalizing s with
  | nil => exact (Slot.fill_none _).symm
  | cons e es ih =>
      rw [List.foldl_cons, ih, offerElement_eq_foldl, get_foldl_offer, Slot.fill_or, List.findSome?_cons]
      cases (C.outputsOf e).find? (Candidate.isOf k) <;> rfl

def aimed (C : Catalog) (target : String) (k : OutputKind) : Option Candidate :=
  (C.document.descendant? target).bind fun e => (C.outputsOf e).find? (Candidate.isOf k)

/-- A target concerns no other kind. -/
theorem get_aim_of_ne {targets : PerKind String} {k k' : OutputKind} (hne : k' ≠ k) (s : Selection) :
    (aim C targets s k').get k = s.get k := by
  unfold aim
  dsimp only
  split
  · exact PerKind.get_set_of_ne s hne _
  · split
    · rw [offerElement_eq_foldl, get_foldl_offer]
      simp [hne, Slot.fill_none]
    · rfl

theorem get_aim_self {targets : PerKind String} {k : OutputKind} (named : targets.get k ≠ "") (s : Selection) :
    (aim C targets s k).get k = (s.get k).fill (aimed C (targets.get k) k) := by
  have some : (targets.get k).isEmpty = false := by simpa using named
  unfold aim aimed
  dsimp only
  rw [some, if_neg Bool.false_ne_true]
  cases C.document.descendant? (targets.get k) with
  | none => exact (Slot.fill_none _).symm
  | some e =>
      dsimp only [Option.bind_some]
      rw [offerElement_eq_foldl, get_foldl_offer]
      simp

theorem get_aims {targets : PerKind String} (k : OutputKind) (named : targets.get k ≠ "") :
    (OutputKind.all.foldl (aim C targets) (.both .empty)).get k = Slot.empty.fill (aimed C (targets.get k) k) := by
  rw [OutputKind.all, List.foldl_cons, List.foldl_cons, List.foldl_nil]
  cases k with
  | surface => rw [get_aim_of_ne (by decide), get_aim_self named, PerKind.get_both]
  | displacement => rw [get_aim_self named, get_aim_of_ne (by decide), PerKind.get_both]

/-- The first output of a kind among all that is discovered. -/
def discovered (C : Catalog) (k : OutputKind) : Option Candidate :=
  C.discover.findSome? fun e => (C.outputsOf e).find? (Candidate.isOf k)

/-- Without targets the first output of a kind that is discovered is selected. -/
theorem get_choose_none (k : OutputKind) : (choose C none).get k = Slot.empty.fill (discovered C k) := by
  rw [choose, offerElements_eq_foldl, get_foldl_offerElement, PerKind.get_both]
  rfl

/-- With a target, its first output of the kind is selected, or else the first that is discovered. -/
theorem get_choose {targets : PerKind String} (k : OutputKind) (named : targets.get k ≠ "") :
    (choose C (some targets)).get k = Slot.empty.fill ((aimed C (targets.get k) k).or (discovered C k)) := by
  rw [choose, offerElements_eq_foldl, get_foldl_offerElement, get_aims k named, Slot.fill_or]
  rfl

theorem get_aims_of_empty {targets : PerKind String} {k : OutputKind} (off : targets.get k = "") :
    (OutputKind.all.foldl (aim C targets) (.both .empty)).get k = .disabled := by
  have self (s : Selection) : (aim C targets s k).get k = .disabled := by
    unfold aim
    dsimp only
    rw [if_pos (by simp [off]), PerKind.get_set_self]
  rw [OutputKind.all, List.foldl_cons, List.foldl_cons, List.foldl_nil]
  cases k with
  | surface => rw [get_aim_of_ne (by decide), self]
  | displacement => exact self _

/-- An empty target switches its kind off. -/
theorem get_choose_of_empty {targets : PerKind String} {k : OutputKind} (off : targets.get k = "") :
    (choose C (some targets)).get k = .disabled := by
  rw [choose, offerElements_eq_foldl, get_foldl_offerElement, get_aims_of_empty off]
  rfl

theorem discovered_eq_find? (k : OutputKind) :
    discovered C k = (C.discover.flatMap C.outputsOf).find? (Candidate.isOf k) := List.find?_flatMap.symm

/-- The slot of a kind is decided by the target of that kind alone. -/
theorem get_choose_congr {targets targets' : Option (PerKind String)} {k : OutputKind}
    (same : targets'.map (·.get k) = targets.map (·.get k)) :
    (choose C targets').get k = (choose C targets).get k := by
  cases targets with
  | none => rw [Option.map_eq_none_iff.1 same]
  | some t =>
      obtain ⟨t', rfl, alike⟩ := Option.map_eq_some_iff.1 same
      by_cases off : t.get k = ""
      · rw [get_choose_of_empty off, get_choose_of_empty (alike.trans off)]
      · rw [get_choose k off, get_choose k fun h => off (alike.symm.trans h), alike]

/-- A kind whose target is neither empty nor leads to an output of the kind takes what is discovered. -/
theorem get_choose_of_astray {targets : Option (PerKind String)} {k : OutputKind}
    (astray : ¬ ∃ t, targets = some t ∧ (t.get k = "" ∨ ∃ e, C.document.descendant? (t.get k) = some e ∧
      ∃ o ∈ C.outputsOf e, o.kind? = some k)) :
    (choose C targets).get k = Slot.empty.fill (discovered C k) := by
  cases targets with
  | none => exact get_choose_none k
  | some t =>
      have named : t.get k ≠ "" := fun off => astray ⟨t, rfl, .inl off⟩
      have nothing : aimed C (t.get k) k = none := by
        refine Option.eq_none_iff_forall_ne_some.2 fun o found => astray ⟨t, rfl, .inr ?_⟩
        obtain ⟨e, leads, found⟩ := Option.bind_eq_some_iff.1 found
        exact ⟨e, leads, o, List.mem_of_find?_eq_some found, Candidate.kind?_of_find? found⟩
      rw [get_choose k named, nothing, Option.none_or]

/-- A kind is switched off exactly if its target is empty. Otherwise the first output of the kind is selected that the
element named by its target exposes; or else, if there is no such output or no such element or no target at all, the
first of the kind among the outputs of all that is discovered. A kind is left open only if there is none. The target of
the other kind has no say in this. -/
theorem slot_of_choose (C : Catalog) (targets : Option (PerKind String)) (k : OutputKind) :
    ((choose C targets).get k = .disabled ↔ ∃ t, targets = some t ∧ t.get k = "") ∧
    (∀ t e c, targets = some t → t.get k ≠ "" → C.document.descendant? (t.get k) = some e →
      (C.outputsOf e).find? (fun o => o.kind? = some k) = some c → (choose C targets).get k = .filled c) ∧
    ((¬ ∃ t, targets = some t ∧ (t.get k = "" ∨ ∃ e, C.document.descendant? (t.get k) = some e ∧
        ∃ o ∈ C.outputsOf e, o.kind? = some k)) →
      (∀ c, (choose C targets).get k = .filled c ↔
        (C.discover.flatMap C.outputsOf).find? (fun o => o.kind? = some k) = some c) ∧
      ((choose C targets).get k = .empty ↔ ∀ o ∈ C.discover.flatMap C.outputsOf, o.kind? ≠ some k)) ∧
    ∀ targets', targets'.map (·.get k) = targets.map (·.get k) →
      (choose C targets').get k = (choose C targets).get k := by
  have filled (o : Option Candidate) : Slot.empty.fill o ≠ .disabled := by cases o <;> exact nofun
  refine ⟨⟨fun disabled => ?_, ?_⟩, ?_, fun astray => ?_, fun _ => get_choose_congr⟩
  · cases targets with
    | none => exact absurd disabled (get_choose_none k ▸ filled _)
    | some t =>
        refine ⟨t, rfl, Classical.byContradiction fun named => ?_⟩
        exact absurd disabled (get_choose (C := C) k named ▸ filled _)
  · rintro ⟨t, rfl, off⟩
    exact get_choose_of_empty off
  · rintro t e c rfl named leads first
    have found : aimed C (t.get k) k = some c := by
      rw [aimed, leads]
      exact first
    rw [get_choose k named, found]
    rfl
  · rw [get_choose_of_astray astray, discovered_eq_find?]
    cases found : (C.discover.flatMap C.outputsOf).find? (Candidate.isOf k) with
    | none =>
        have none : ∀ o ∈ C.discover.flatMap C.outputsOf, o.kind? ≠ some k := fun o mem kind =>
          List.find?_eq_none.1 found o mem (decide_eq_true kind)
        exact ⟨fun c => ⟨nofun, fun first => nomatch found.symm.trans first⟩, fun _ => none, fun _ => rfl⟩
    | some c =>
        refine ⟨fun c' => ⟨fun same => ?_, fun first => ?_⟩, nofun, fun none => ?_⟩
        · cases same
          exact found
        · cases found.symm.trans first
          rfl
        · exact absurd (Candidate.kind?_of_find? found) (none c (List.mem_of_find?_eq_some found))

theorem ext_get {s t : Selection} (h : ∀ k, s.get k = t.get k) : s = t := by
  obtain ⟨surface, displacement⟩ := s
  obtain ⟨surface', displacement'⟩ := t
  have first : surface = surface' := h .surface
  have second : displacement = displacement' := h .displacement
  rw [first, second]

end Selection

/-! ## Elements of the top level -/

namespace Document

def elements (d : Document) : List Element :=
  d.materials.map .material ++ d.nodeGraphs.map .graph ++ d.nodes.map (.node (.document d)) ++
    d.outputs.map (.output (.document d))

/-- The elements of the top level have names of their own that can stand in a path. -/
structure WellNamed (d : Document) : Prop where
  distinct : (d.elements.map Element.namePath).Nodup
  plain : ∀ e ∈ d.elements, e.namePath ≠ "" ∧ '/' ∉ e.namePath.toList

instance (d : Document) : Decidable d.WellNamed :=
  decidable_of_iff ((d.elements.map Element.namePath).Nodup ∧ ∀ e ∈ d.elements, e.namePath ≠ "" ∧ '/' ∉ e.namePath.toList)
    ⟨fun h => ⟨h.1, h.2⟩, fun h => ⟨h.1, h.2⟩⟩

variable {d : Document}

theorem WellNamed.eq_of_namePath (named : d.WellNamed) {e e' : Element} (he : e ∈ d.elements) (he' : e' ∈ d.elements)
    (same : e.namePath = e'.namePath) : e = e' :=
  List.inj_on_of_nodup_map named.distinct he he' same

/-- What is found at the top level is an element of the name. -/
theorem mem_of_child? {name : String} {e : Element} (h : d.child? name = some e) :
    e ∈ d.elements ∧ e.namePath = name := by
  unfold child? at h
  have found {α : Type} {l : List α} {p : α → Bool} {f : α → Element} (h : (l.find? p).map f = some e) :
      ∃ x ∈ l, p x = true ∧ f x = e := by
    obtain ⟨x, hx, rfl⟩ := Option.map_eq_some_iff.1 h
    exact ⟨x, List.mem_of_find?_eq_some hx, List.find?_some hx, rfl⟩
  simp only [elements, List.mem_append, List.mem_map]
  rcases Option.or_eq_some_iff.1 h with h | ⟨-, h⟩
  · obtain ⟨m, hm, name, rfl⟩ := found h
    exact ⟨.inl (.inl (.inl ⟨m, hm, rfl⟩)), of_decide_eq_true name⟩
  rcases Option.or_eq_some_iff.1 h with h | ⟨-, h⟩
  · obtain ⟨g, hg, name, rfl⟩ := found h
    exact ⟨.inl (.inl (.inr ⟨g, hg, rfl⟩)), of_decide_eq_true name⟩
  rcases Option.or_eq_some_iff.1 h with h | ⟨-, h⟩
  · obtain ⟨n, hn, name, rfl⟩ := found h
    exact ⟨.inl (.inr ⟨n, hn, rfl⟩), of_decide_eq_true name⟩
  · obtain ⟨o, ho, name, rfl⟩ := found h
    exact ⟨.inr ⟨o, ho, rfl⟩, of_decide_eq_true name⟩

theorem isSome_child?_of_mem {e : Element} (he : e ∈ d.elements) : (d.child? e.namePath).isSome := by
  have found {α : Type} {l : List α} {f : α → String} {x : α} (hx : x ∈ l) :
      (l.find? fun y => f y = f x).isSome :=
    List.find?_isSome.2 ⟨x, hx, decide_eq_true rfl⟩
  simp only [elements, List.mem_append, List.mem_map] at he
  unfold child?
  rcases he with ((⟨m, hm, rfl⟩ | ⟨g, hg, rfl⟩) | ⟨n, hn, rfl⟩) | ⟨o, ho, rfl⟩
  · have : (d.material? m.name).isSome := found hm
    simp [Element.namePath, this]
  · have : (d.nodeGraph? g.name).isSome := found hg
    simp [Element.namePath, this]
  · have : (d.node? n.name).isSome := found hn
    simp [Element.namePath, Element.pathIn, this]
  · have : (d.output? o.name).isSome := found ho
    simp [Element.namePath, Element.pathIn, this]

theorem WellNamed.child?_namePath (named : d.WellNamed) {e : Element} (he : e ∈ d.elements) :
    d.child? e.namePath = some e := by
  obtain ⟨e', found⟩ := Option.isSome_iff_exists.1 (isSome_child?_of_mem he)
  obtain ⟨he', same⟩ := mem_of_child? found
  rw [found, named.eq_of_namePath he' he same]

theorem pathNames_of_plain {name : String} (some : name ≠ "") (plain : '/' ∉ name.toList) :
    pathNames name = [name] := by
  rw [pathNames, Text.splitOn, Text.splitChars_of_notMem plain, List.map_singleton, String.ofList_toList]
  simp [some]

/-- The path of an element of the top level leads to it. -/
theorem WellNamed.descendant?_namePath (named : d.WellNamed) {e : Element} (he : e ∈ d.elements) :
    d.descendant? e.namePath = some e := by
  obtain ⟨some, plain⟩ := named.plain e he
  rw [descendant?, pathNames_of_plain some plain]
  exact named.child?_namePath he

end Document

/-! ## Listing -/

namespace Catalog

variable {C : Catalog}

/-- Only elements of the top level are discovered. -/
theorem mem_elements_of_discovered {e : Element} (h : e ∈ C.discover) : e ∈ C.document.elements := by
  simp only [discover, List.mem_append] at h
  simp only [Document.elements, List.mem_append]
  rcases h with (((h | h) | h) | h) | h
  · obtain ⟨a, -, found⟩ := List.mem_filterMap.1 h
    have := (Document.mem_of_child? found).1
    simpa only [Document.elements, List.mem_append] using this
  · exact .inl (.inl (.inl (List.mem_filter.1 h).1))
  · split at h
    · obtain ⟨n, hn, rfl⟩ := List.mem_map.1 h
      exact .inl (.inr (List.mem_map_of_mem (List.mem_filter.1 hn).1))
    · cases h
  · obtain ⟨g, hg, rfl⟩ := List.mem_map.1 h
    exact .inl (.inl (.inr (List.mem_map_of_mem (List.mem_filter.1 hg).1)))
  · obtain ⟨o, ho, rfl⟩ := List.mem_map.1 h
    exact .inr (List.mem_map_of_mem (List.mem_filter.1 ho).1)

/-- Whether an element exposes an output of a kind. -/
def exposes (C : Catalog) (k : OutputKind) (e : Element) : Bool := (C.outputsOf e).any (Candidate.isOf k)

/-- To leave out repeated elements does not change the first element with a property, if elements that count as one
agree on it. -/
theorem find?_firstOfEach {p : Element → Bool} {es : List Element} {seen : List (Element.Kind × String)}
    (agree : ∀ e ∈ es, ∀ e' ∈ es, e.identity = e'.identity → p e = p e')
    (fail : ∀ e ∈ es, e.identity ∈ seen → p e = false) : (firstOfEach seen es).find? p = es.find? p := by
  induction es generalizing seen with
  | nil => rfl
  | cons e es ih =>
      have agree' := fun x hx y hy => agree x (List.mem_cons_of_mem _ hx) y (List.mem_cons_of_mem _ hy)
      have fail' := fun x hx => fail x (List.mem_cons_of_mem _ hx)
      rw [firstOfEach]
      split
      · next there =>
        rw [List.find?_cons, fail e List.mem_cons_self (by simpa using there)]
        exact ih agree' fail'
      · rw [List.find?_cons, List.find?_cons]
        cases he : p e with
        | true => rfl
        | false =>
            refine ih agree' fun x hx hs => ?_
            rcases List.mem_cons.1 hs with same | hs
            · rw [agree x (List.mem_cons_of_mem _ hx) e List.mem_cons_self same, he]
            · exact fail' x hx hs

theorem get_renderables (k : OutputKind) :
    C.renderables.get k = ((firstOfEach [] C.discover).filter (C.exposes k)).map Element.namePath := by
  cases k <;> rfl

/-- The path that is listed first is that of the first discovered element that exposes the kind. -/
theorem head?_renderables (named : C.document.WellNamed) (k : OutputKind) :
    (C.renderables.get k).head? = (C.discover.find? (C.exposes k)).map Element.namePath := by
  rw [get_renderables, List.head?_map, List.head?_filter, find?_firstOfEach _ fun _ _ h => absurd h List.not_mem_nil]
  intro e he e' he' same
  have same : e = e' := named.eq_of_namePath (mem_elements_of_discovered he) (mem_elements_of_discovered he')
    (congrArg Prod.snd same)
  rw [same]

/-- A kind is discovered if an element exposes it, and then it is the first such element that gives the output. -/
theorem discovered_eq (k : OutputKind) :
    Selection.discovered C k =
      (C.discover.find? (C.exposes k)).bind fun e => (C.outputsOf e).find? (Candidate.isOf k) := by
  unfold Selection.discovered
  induction C.discover with
  | nil => rfl
  | cons e es ih =>
      have some : ((C.outputsOf e).find? (Candidate.isOf k)).isSome = C.exposes k e := List.isSome_find?
      rw [List.findSome?_cons, List.find?_cons, ← some]
      cases found : (C.outputsOf e).find? (Candidate.isOf k) with
      | none => exact ih
      | some c => exact found.symm

end Catalog

/-! ## Targets -/

/-- Targets that name what is listed first for each kind, or lead to nothing for a kind of which nothing is listed. -/
def Catalog.Lists (C : Catalog) (targets : PerKind String) : Prop :=
  ∀ k, match C.renderables.get k with
    | [] => targets.get k ≠ "" ∧ C.document.descendant? (targets.get k) = none
    | path :: _ => targets.get k = path

namespace Selection

variable {C : Catalog}

theorem discovered_of_listed (named : C.document.WellNamed) {k : OutputKind} {path : String} {paths : List String}
    (listed : C.renderables.get k = path :: paths) :
    ∃ e ∈ C.discover, e.namePath = path ∧ C.document.descendant? path = some e ∧
      ∃ o ∈ C.outputsOf e, (C.outputsOf e).find? (Candidate.isOf k) = some o ∧ discovered C k = some o ∧
        o.kind? = some k := by
  have first := C.head?_renderables named k
  rw [listed, List.head?_cons, eq_comm, Option.map_eq_some_iff] at first
  obtain ⟨e, found, rfl⟩ := first
  have mem : e ∈ C.discover := List.mem_of_find?_eq_some found
  have exposed : C.exposes k e = true := List.find?_some found
  obtain ⟨o, ho⟩ := Option.isSome_iff_exists.1 (List.isSome_find?.trans exposed)
  have kind : o.isOf k = true := List.find?_some ho
  refine ⟨e, mem, rfl, named.descendant?_namePath (Catalog.mem_elements_of_discovered mem), o,
    List.mem_of_find?_eq_some ho, ho, ?_, of_decide_eq_true kind⟩
  rw [Catalog.discovered_eq, found]
  exact ho

theorem discovered_of_unlisted (named : C.document.WellNamed) {k : OutputKind}
    (unlisted : C.renderables.get k = []) : discovered C k = none := by
  have first := C.head?_renderables named k
  rw [unlisted, List.head?_nil, eq_comm, Option.map_eq_none_iff] at first
  rw [Catalog.discovered_eq, first]
  rfl

/-- To aim at what is listed first selects what is selected without targets. -/
theorem choose_of_lists (named : C.document.WellNamed) {targets : PerKind String} (lists : C.Lists targets) :
    choose C (some targets) = choose C none := by
  refine ext_get fun k => ?_
  have here := lists k
  cases listed : C.renderables.get k with
  | nil =>
      rw [listed] at here
      rw [get_choose_none, get_choose k here.1, aimed, here.2]
      rfl
  | cons path paths =>
      rw [listed] at here
      obtain ⟨e, mem, rfl, leads, o, -, found, first, -⟩ := discovered_of_listed named listed
      have some : targets.get k ≠ "" := by
        rw [here]
        exact (named.plain e (Catalog.mem_elements_of_discovered mem)).1
      rw [get_choose_none, get_choose k some, aimed, here, leads, Option.bind_some, found, first]
      rfl

/-- Nothing is selected if nothing is listed. -/
theorem selected_of_unlisted (named : C.document.WellNamed) (unlisted : ∀ k, C.renderables.get k = []) :
    (choose C none).selected = [] := by
  rw [selected, List.filterMap_eq_nil_iff]
  intro k _
  rw [get_choose_none, discovered_of_unlisted named (unlisted k)]
  rfl

end Selection

/-- What is listed as renderable, what is selected without targets, and what a target selects agree, if the elements of
the top level have names of their own. Without targets a kind is selected if something is listed for it, and then from
the element that is listed first. A load with targets that name what is listed first does the same as one without. If
nothing is listed, a load asks the renderer for nothing and hands over nothing. -/
theorem load_of_listed_targets {σ : Type} (l : Loader) (d : Document) (named : d.WellNamed) (options : LoadOptions)
    (fileExists : String → Bool) (r : Renderer σ) (s : σ) :
    (∀ k, match (l.renderables d).get k with
      | [] => (Selection.choose (l.catalog d) none).get k = .empty
      | path :: _ => ∃ e, d.descendant? path = some e ∧ e.namePath = path ∧ ∃ o ∈ (l.catalog d).outputsOf e,
          o.kind? = some k ∧ (Selection.choose (l.catalog d) none).get k = .filled o) ∧
    (∀ targets, (l.catalog d).Lists targets →
      l.load d { options with targets := some targets } fileExists r s =
        l.load d { options with targets := none } fileExists r s) ∧
    ((∀ k, (l.renderables d).get k = []) →
      ∃ o, l.load d { options with targets := none } fileExists r s = some o ∧ o.result = {} ∧ o.system = s ∧
        ∀ e ∈ o.journal, ¬ e.IsCall) := by
  have named : (l.catalog d).document.WellNamed := named
  refine ⟨fun k => ?_, fun targets lists => ?_, fun unlisted => ?_⟩
  · cases listed : (l.renderables d).get k with
    | nil =>
        dsimp only
        rw [Selection.get_choose_none, Selection.discovered_of_unlisted named listed]
        rfl
    | cons path paths =>
        obtain ⟨e, -, path, leads, o, mem, -, first, kind⟩ := Selection.discovered_of_listed named listed
        refine ⟨e, leads, path, o, mem, kind, ?_⟩
        rw [Selection.get_choose_none, first]
        rfl
  · have same : Build.loadDocument (σ := σ) (some targets) (l.env d options fileExists r) =
        Build.loadDocument none (l.env d options fileExists r) := by
      have chosen := Selection.choose_of_lists named lists
      funext c
      change Build.within .global _ _ _ c = Build.within .global _ _ _ c
      rw [show (l.env d options fileExists r).catalog = l.catalog d from rfl, chosen]
    change (Build.loadDocument (some targets) (l.env d options fileExists r) _).toOption.map _ = _
    rw [same]
    rfl
  · have nothing : (Selection.choose (l.catalog d) none).selected = [] := Selection.selected_of_unlisted named unlisted
    refine ⟨⟨{}, s, [.warned (.nothingToRender d.name)]⟩, ?_, rfl, rfl, ?_⟩
    · have ended : Build.loadDocument none (l.env d options fileExists r) { system := s } =
          .ok ({}, { system := s, journal := [.warned (.nothingToRender d.name)] }) := by
        change Build.within .global _ (if (Selection.choose (l.catalog d) none).selected.isEmpty then _ else _) _ _ = _
        rw [nothing]
        rfl
      exact congrArg (Option.map _) (congrArg Except.toOption ended)
    · intro e he
      rw [List.mem_singleton.1 he]
      exact id

/-- A document whose look assigns its output, so that this comes before the graph. -/
def assignedOutput : Document where
  nodeDefs := [
    { name := "ND_add", node := "add", type := "float"
      inputs := [{ name := "in1", type := "float" }, { name := "in2", type := "float" }] }]
  nodeGraphs := [
    { name := "g", nodes := [{ name := "b", category := "add", type := "float" }]
      outputs := [{ name := "out", type := "color3", nodeName := some "b" }] }]
  nodes := [{ name := "a", category := "add", type := "float" }]
  outputs := [{ name := "o", type := "float", nodeName := some "a" }]
  looks := [{ name := "l", materialAssigns := [{ name := "m", material := "o" }] }]

/-- The output is listed first, nothing is listed for the displacement, and a load that aims at the output does the same
as one that aims at nothing. -/
theorem load_of_listed_targets_assignedOutput :
    assignedOutput.WellNamed ∧ ({} : Loader).renderables assignedOutput = ⟨["o", "g"], []⟩ ∧
      Loader.load {} assignedOutput { targets := some ⟨"o", "nothing"⟩ } (fun _ => false) Recorder.renderer {} =
        Loader.load {} assignedOutput {} (fun _ => false) Recorder.renderer {} ∧
      (Loader.load {} assignedOutput {} (fun _ => false) Recorder.renderer {}).map (·.result.nodes) =
        some [⟨0⟩, ⟨1⟩] := by
  have named : assignedOutput.WellNamed := by decide
  have listed : ({} : Loader).renderables assignedOutput = ⟨["o", "g"], []⟩ := by decide +kernel
  have agree := load_of_listed_targets {} assignedOutput named {} (fun _ => false) Recorder.renderer {}
  refine ⟨named, listed, agree.2.1 ⟨"o", "nothing"⟩ fun k => ?_, by decide +kernel⟩
  rw [show (({} : Loader).catalog assignedOutput).renderables = ⟨["o", "g"], []⟩ from listed]
  cases k with
  | surface => exact rfl
  | displacement => exact ⟨by decide, by decide +kernel⟩

end MaterialGraph
