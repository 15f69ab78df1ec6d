import Mathlib.Data.List.Forall2
import MaterialGraph.Build.Group
import MaterialGraph.Loader

/-!
# Documents that differ in the order of nodes

* `NodeGraph.Alike`, `Document.Alike`, `Catalog.Alike` : the same but for the order of nodes in named graphs, and the
  same node for each name.
* `Catalog.Alike.nodeDefOf?` and its siblings : what is looked up in catalogs that are alike is alike.
* `groups_alike` : so are the groups of outputs that are selected.
-/

namespace MaterialGraph

set_option autoImplicit false

open List (Forall₂)

/-! ## Options that are alike -/

section

variable {α α' β β' : Type} {R : α → α' → Prop} {S : β → β' → Prop}

theorem rel_none_or_some {o : Option α} {o' : Option α'} (h : Option.Rel R o o') :
    (o = none ∧ o' = none) ∨ ∃ a a', o = some a ∧ o' = some a' ∧ R a a' := by
  cases h with
  | none => exact .inl ⟨rfl, rfl⟩
  | some h => exact .inr ⟨_, _, rfl, rfl, h⟩

theorem eq_of_rel {o o' : Option α} (h : Option.Rel Eq o o') : o' = o := by
  cases h with
  | none => rfl
  | some h => rw [h]

theorem rel_refl {T : α → α → Prop} (refl : ∀ a, T a a) (o : Option α) : Option.Rel T o o := by
  cases o with
  | none => exact .none
  | some a => exact .some (refl a)

theorem rel_mono {T : α → α' → Prop} (hT : ∀ a a', R a a' → T a a') {o : Option α} {o' : Option α'}
    (h : Option.Rel R o o') : Option.Rel T o o' := by
  cases h with
  | none => exact .none
  | some h => exact .some (hT _ _ h)

theorem rel_map {f : α → β} {f' : α' → β'} {o : Option α} {o' : Option α'} (h : Option.Rel R o o')
    (hf : ∀ a a', R a a' → S (f a) (f' a')) : Option.Rel S (o.map f) (o'.map f') := by
  cases h with
  | none => exact .none
  | some h => exact .some (hf _ _ h)

theorem rel_map_same {f : α → β} {f' : α → β'} (hf : ∀ a, S (f a) (f' a)) (o : Option α) :
    Option.Rel S (o.map f) (o.map f') :=
  rel_map (R := Eq) (rel_refl (fun _ => rfl) o) fun a _ h => h ▸ hf a

theorem rel_bind {f : α → Option β} {f' : α' → Option β'} {o : Option α} {o' : Option α'} (h : Option.Rel R o o')
    (hf : ∀ a a', R a a' → Option.Rel S (f a) (f' a')) : Option.Rel S (o.bind f) (o'.bind f') := by
  cases h with
  | none => exact .none
  | some h => exact hf _ _ h

theorem rel_or {o p : Option α} {o' p' : Option α'} (h : Option.Rel R o o') (h' : Option.Rel R p p') :
    Option.Rel R (o.or p) (o'.or p') := by
  cases h with
  | none => exact h'
  | some h => exact .some h

theorem rel_find? {l : List α} {l' : List α'} (h : Forall₂ R l l') {p : α → Bool} {p' : α' → Bool}
    (hp : ∀ a a', R a a' → p' a' = p a) : Option.Rel R (l.find? p) (l'.find? p') := by
  induction h with
  | nil => exact .none
  | cons ha _ ih =>
      rw [List.find?_cons, List.find?_cons, hp _ _ ha]
      split
      · exact .some ha
      · exact ih

theorem rel_findSome? {l : List α} {l' : List α'} (h : Forall₂ R l l') {f : α → Option β} {f' : α' → Option β'}
    (hf : ∀ a a', R a a' → Option.Rel S (f a) (f' a')) : Option.Rel S (l.findSome? f) (l'.findSome? f') := by
  induction h with
  | nil => exact .none
  | cons ha _ ih =>
      rw [List.findSome?_cons, List.findSome?_cons]
      have := hf _ _ ha
      generalize f _ = o at this ⊢
      generalize f' _ = o' at this ⊢
      cases this with
      | none => exact ih
      | some h => exact .some h

end

/-! ## Documents -/

/-- Two graphs are the same but for the order of their nodes, and have the same node for each name. -/
structure NodeGraph.Alike (g g' : NodeGraph) : Prop where
  rest : g' = { g with nodes := g'.nodes }
  perm : g'.nodes.Perm g.nodes
  node : ∀ name : String, (g'.nodes.find? fun n => n.name = name) = g.nodes.find? fun n => n.name = name

theorem NodeGraph.Alike.refl (g : NodeGraph) : g.Alike g := ⟨rfl, .rfl, fun _ => rfl⟩

/-- Two documents are the same but for the order of nodes in their named graphs. -/
structure Document.Alike (d d' : Document) : Prop where
  rest : d' = { d with nodeGraphs := d'.nodeGraphs }
  graphs : Forall₂ NodeGraph.Alike d.nodeGraphs d'.nodeGraphs

theorem Document.Alike.refl (d : Document) : d.Alike d := ⟨rfl, List.forall₂_same.2 fun g _ => .refl g⟩

/-- Two graphs are alike. -/
inductive Graph.Alike : Graph → Graph → Prop
  | document {d d' : Document} (alike : d.Alike d') : Graph.Alike (.document d) (.document d')
  | named {g g' : NodeGraph} (alike : g.Alike g') : Graph.Alike (.named g) (.named g')

/-- Two catalogs are alike. -/
structure Catalog.Alike (c c' : Catalog) : Prop where
  document : c.document.Alike c'.document
  library : Option.Rel Document.Alike c.library c'.library

theorem Catalog.Alike.refl (c : Catalog) : c.Alike c := ⟨.refl _, rel_refl .refl _⟩

namespace NodeGraph.Alike

variable {g g' : NodeGraph} (h : g.Alike g')

include h

theorem name : g'.name = g.name := by rw [h.rest]

theorem nodeDef : g'.nodeDef = g.nodeDef := by rw [h.rest]

theorem fromLibrary : g'.fromLibrary = g.fromLibrary := by rw [h.rest]

theorem outputs : g'.outputs = g.outputs := by rw [h.rest]

theorem filePrefix : g'.filePrefix = g.filePrefix := by rw [h.rest]

end NodeGraph.Alike

namespace Document.Alike

variable {d d' : Document} (h : d.Alike d')

include h

theorem name : d'.name = d.name := by rw [h.rest]

theorem filePrefix : d'.filePrefix = d.filePrefix := by rw [h.rest]

theorem nodes : d'.nodes = d.nodes := by rw [h.rest]

theorem outputs : d'.outputs = d.outputs := by rw [h.rest]

theorem nodeDefs : d'.nodeDefs = d.nodeDefs := by rw [h.rest]

theorem materials : d'.materials = d.materials := by rw [h.rest]

theorem looks : d'.looks = d.looks := by rw [h.rest]

theorem node? (name : String) : d'.node? name = d.node? name := by rw [Document.node?, Document.node?, h.nodes]

theorem output? (name : String) : d'.output? name = d.output? name := by
  rw [Document.output?, Document.output?, h.outputs]

theorem material? (name : String) : d'.material? name = d.material? name := by
  rw [Document.material?, Document.material?, h.materials]

theorem geomPropDef? (name : String) : d'.geomPropDef? name = d.geomPropDef? name := by
  rw [h.rest]
  rfl

theorem typeDef? (name : String) : d'.typeDef? name = d.typeDef? name := by
  rw [h.rest]
  rfl

theorem versionNumbers : d'.versionNumbers = d.versionNumbers := by
  rw [h.rest]
  rfl

theorem nodeGraph? (name : String) : Option.Rel NodeGraph.Alike (d.nodeGraph? name) (d'.nodeGraph? name) :=
  rel_find? h.graphs fun _ _ alike => by rw [alike.name]

end Document.Alike

namespace Graph.Alike

variable {g g' : Graph} (h : g.Alike g')

include h

theorem name : g'.name = g.name := by
  cases h with
  | document alike => exact alike.name
  | named alike => exact alike.name

theorem outputs : g'.outputs = g.outputs := by
  cases h with
  | document alike => exact alike.outputs
  | named alike => exact alike.outputs

theorem output? (name : String) : g'.output? name = g.output? name := by
  rw [Graph.output?, Graph.output?, h.outputs]

theorem type : g'.type = g.type := by rw [Graph.type, Graph.type, h.outputs]

theorem filePrefix : g'.filePrefix = g.filePrefix := by
  cases h with
  | document alike => exact congrArg nonEmpty alike.filePrefix
  | named alike => exact congrArg nonEmpty alike.filePrefix

theorem node? (name : String) : g'.node? name = g.node? name := by
  cases h with
  | document alike => exact alike.node? name
  | named alike => exact alike.node name

theorem perm : g'.nodes.Perm g.nodes := by
  cases h with
  | document alike => exact .of_eq alike.nodes
  | named alike => exact alike.perm

end Graph.Alike

/-- The documents of two catalogs are related if the documents and the libraries are. -/
theorem documents_rel {R : Document → Document → Prop} {c c' : Catalog} (document : R c.document c'.document)
    (library : Option.Rel R c.library c'.library) : Forall₂ R c.documents c'.documents := by
  refine .cons document ?_
  obtain ⟨h, h'⟩ | ⟨d, d', h, h', same⟩ := rel_none_or_some library
  · rw [h, h']
    exact .nil
  · rw [h, h']
    exact .cons same .nil

namespace Catalog.Alike

variable {c c' : Catalog} (h : c.Alike c')

include h

theorem documents : Forall₂ Document.Alike c.documents c'.documents := documents_rel h.document h.library

/-- What each document has, and documents that are alike have the same, catalogs have. -/
theorem findSome? {β : Type} {f : Document → Option β} (hf : ∀ d d', d.Alike d' → f d' = f d) :
    c'.documents.findSome? f = c.documents.findSome? f :=
  eq_of_rel (rel_findSome? h.documents fun d d' alike => by
    rw [hf d d' alike]
    exact rel_refl (fun _ => rfl) _)

theorem nodeDef? (name : String) : c'.nodeDef? name = c.nodeDef? name :=
  h.findSome? fun _ _ alike => by rw [alike.nodeDefs]

theorem nodeDefOf? (n : Node) : c'.nodeDefOf? n = c.nodeDefOf? n := by
  unfold Catalog.nodeDefOf?
  split
  · exact h.nodeDef? _
  · exact h.findSome? fun _ _ alike => by rw [alike.nodeDefs]

theorem shaderDef? (r : ShaderRef) : c'.shaderDef? r = c.shaderDef? r := by
  unfold Catalog.shaderDef?
  split
  · exact h.nodeDef? _
  · exact h.findSome? fun _ _ alike => by rw [alike.nodeDefs]

theorem geomPropDef? (name : String) : c'.geomPropDef? name = c.geomPropDef? name :=
  h.findSome? fun _ _ alike => alike.geomPropDef? name

theorem typeDef? (name : String) : c'.typeDef? name = c.typeDef? name :=
  h.findSome? fun _ _ alike => alike.typeDef? name

theorem implementation? (nd : NodeDef) :
    Option.Rel NodeGraph.Alike (c.implementation? nd) (c'.implementation? nd) := by
  unfold Catalog.implementation?
  split
  · exact rel_findSome? h.documents fun _ _ alike => alike.nodeGraph? _
  · exact rel_findSome? h.documents fun _ _ alike => rel_find? alike.graphs fun _ _ alike => by rw [alike.nodeDef]

theorem nodeDefOfGraph? {g g' : Graph} (alike : g.Alike g') : g'.nodeDef? c' = g.nodeDef? c := by
  cases alike with
  | document => rfl
  | named alike =>
      rw [Graph.nodeDef?, Graph.nodeDef?, alike.nodeDef, alike.name]
      split
      · exact h.nodeDef? _
      · exact h.findSome? fun _ _ alike => by rw [alike.nodeDefs]

end Catalog.Alike

/-! ## Selections -/

/-- Two elements are alike. -/
inductive Element.Alike : Element → Element → Prop
  | material (m : Material) : Element.Alike (.material m) (.material m)
  | graph {g g' : NodeGraph} (alike : g.Alike g') : Element.Alike (.graph g) (.graph g')
  | output {parent parent' : Graph} (alike : parent.Alike parent') (o : Output) :
      Element.Alike (.output parent o) (.output parent' o)
  | node {parent parent' : Graph} (alike : parent.Alike parent') (n : Node) :
      Element.Alike (.node parent n) (.node parent' n)

/-- Two exposed outputs are alike. -/
inductive Candidate.Alike : Candidate → Candidate → Prop
  | mk {g g' : Graph} (alike : g.Alike g') (o : Output) (r : Option ShaderRef) : Candidate.Alike ⟨g, o, r⟩ ⟨g', o, r⟩

/-- Two slots are alike. -/
inductive Slot.Alike : Slot → Slot → Prop
  | empty : Slot.Alike .empty .empty
  | disabled : Slot.Alike .disabled .disabled
  | filled {c c' : Candidate} (alike : c.Alike c') : Slot.Alike (.filled c) (.filled c')

def Selection.Alike (s s' : Selection) : Prop := ∀ k, (s.get k).Alike (s'.get k)

/-- Two groups are alike. -/
inductive Group.Alike : Group → Group → Prop
  | mk {g g' : Graph} (alike : g.Alike g') (r : Option ShaderRef) (outputs : List (OutputKind × Output)) :
      Group.Alike ⟨g, r, outputs⟩ ⟨g', r, outputs⟩

theorem forall₂_map_same {α β β' : Type} {R : β → β' → Prop} {f : α → β} {f' : α → β'} (hf : ∀ a, R (f a) (f' a))
    (l : List α) : Forall₂ R (l.map f) (l.map f') := by
  induction l with
  | nil => exact .nil
  | cons a l ih => exact .cons (hf a) ih

theorem Candidate.Alike.kind? {c c' : Candidate} (h : c.Alike c') : c'.kind? = c.kind? := by
  cases h
  rfl

theorem Document.Alike.child? {d d' : Document} (h : d.Alike d') (name : String) :
    Option.Rel Element.Alike (d.child? name) (d'.child? name) := by
  unfold Document.child?
  rw [h.material?, h.node?, h.output?]
  refine rel_or (rel_map_same .material _) (rel_or ?_ (rel_or ?_ ?_))
  · exact rel_map (h.nodeGraph? name) fun _ _ alike => .graph alike
  · exact rel_map_same (fun n => .node (.document h) n) _
  · exact rel_map_same (fun o => .output (.document h) o) _

theorem Document.Alike.descendant? {d d' : Document} (h : d.Alike d') (path : String) :
    Option.Rel Element.Alike (d.descendant? path) (d'.descendant? path) := by
  unfold Document.descendant?
  split
  · exact h.child? _
  · refine rel_bind (h.nodeGraph? _) fun g g' alike => ?_
    have alike := Graph.Alike.named alike
    dsimp only
    rw [alike.node?, alike.output?]
    exact rel_or (rel_map_same (fun n => .node alike n) _) (rel_map_same (fun o => .output alike o) _)
  · exact .none

namespace Catalog.Alike

variable {c c' : Catalog} (h : c.Alike c')

include h

theorem outputsOfShader (r : ShaderRef) : Forall₂ Candidate.Alike (c.outputsOfShader r) (c'.outputsOfShader r) := by
  unfold Catalog.outputsOfShader
  rw [h.shaderDef?]
  have implementations : Option.Rel NodeGraph.Alike
      (((c.shaderDef? r).filter fun nd => nd.target.isEmpty).bind c.implementation?)
      (((c.shaderDef? r).filter fun nd => nd.target.isEmpty).bind c'.implementation?) :=
    rel_bind (R := Eq) (rel_refl (fun _ => rfl) _) fun nd _ same => same ▸ h.implementation? nd
  obtain ⟨none, none'⟩ | ⟨g, g', some, some', alike⟩ := rel_none_or_some implementations
  · rw [none, none']
    exact .nil
  · rw [some, some']
    dsimp only
    rw [alike.outputs]
    exact forall₂_map_same (fun o => .mk (.named alike) o _) _

omit h in
theorem outputsOfNode {parent parent' : Graph} (alike : parent.Alike parent') (n : Node) :
    Forall₂ Candidate.Alike (Catalog.outputsOfNode parent n) (Catalog.outputsOfNode parent' n) := by
  unfold Catalog.outputsOfNode
  dsimp only
  split
  · refine List.rel_filterMap (R := Eq) ?_ (List.forall₂_same.2 fun _ _ => rfl)
    rintro slot _ rfl
    rw [funext alike.node?]
    exact rel_map_same (fun n => .mk alike _ _) _
  · split
    · exact .cons (.mk alike _ _) .nil
    · exact .nil

theorem outputsOf {e e' : Element} (alike : e.Alike e') :
    Forall₂ Candidate.Alike (c.outputsOf e) (c'.outputsOf e') := by
  cases alike with
  | material m =>
      exact List.rel_flatMap (R := Eq) (List.forall₂_same.2 fun _ _ => rfl) fun r _ same => same ▸ h.outputsOfShader r
  | @graph g g' alike =>
      change Forall₂ _ (g.outputs.map _) (g'.outputs.map _)
      rw [alike.outputs]
      exact forall₂_map_same (fun o => .mk (.named alike) o _) _
  | output alike o => exact .cons (.mk alike o _) .nil
  | node alike n => exact outputsOfNode alike n

theorem isRenderable {e e' : Element} (alike : e.Alike e') : c'.isRenderable e' = c.isRenderable e := by
  unfold Catalog.isRenderable
  have outputs := h.outputsOf alike
  generalize c.outputsOf e = os at outputs
  generalize c'.outputsOf e' = os' at outputs
  induction outputs with
  | nil => rfl
  | cons same _ ih => rw [List.any_cons, List.any_cons, same.kind?, ih]

theorem discover : Forall₂ Element.Alike c.discover c'.discover := by
  have types : c'.isShaderType = c.isShaderType := by
    funext type
    rw [Catalog.isShaderType, Catalog.isShaderType, h.typeDef?]
  unfold Catalog.discover
  dsimp only
  rw [h.document.looks, h.document.materials, h.document.versionNumbers, h.document.nodes, h.document.outputs, types]
  refine List.rel_append (List.rel_append (List.rel_append (List.rel_append ?_ ?_) ?_) ?_) ?_
  · refine List.rel_filterMap (R := Eq) ?_ (List.forall₂_same.2 fun _ _ => rfl)
    rintro a _ rfl
    exact h.document.child? _
  · refine List.rel_filter (R := Element.Alike) (fun e e' alike => ?_) (forall₂_map_same .material _)
    dsimp only
    rw [h.isRenderable alike]
  · split
    · exact forall₂_map_same (fun n => .node (.document h.document) n) _
    · exact .nil
  · refine List.rel_map (R := NodeGraph.Alike) (fun _ _ alike => .graph alike) ?_
    refine List.rel_filter (fun g g' alike => ?_) h.document.graphs
    dsimp only
    rw [alike.fromLibrary, alike.nodeDef, alike.outputs]
  · exact forall₂_map_same (fun o => .output (.document h.document) o) _

end Catalog.Alike

namespace Selection

variable {s s' : Selection}

theorem alike_set {slot slot' : Slot} (h : s.Alike s') (k : OutputKind) (hslot : slot.Alike slot') :
    Selection.Alike (s.set k slot) (s'.set k slot') := by
  intro l
  by_cases hl : k = l
  · subst hl
    rwa [PerKind.get_set_self, PerKind.get_set_self]
  · rw [PerKind.get_set_of_ne _ hl, PerKind.get_set_of_ne _ hl]
    exact h l

theorem alike_offer (wanted : Option OutputKind) (h : s.Alike s') {c c' : Candidate} (alike : c.Alike c') :
    Selection.Alike (offer wanted s c) (offer wanted s' c') := by
  unfold offer
  rw [alike.kind?]
  split
  · exact h
  · next k _ =>
    have empty : s'.get k = .empty ↔ s.get k = .empty := by
      have := h k
      generalize s.get k = slot at this
      generalize s'.get k = slot' at this
      cases this <;> simp
    simp only [empty]
    split
    · exact alike_set h k (.filled alike)
    · exact h

theorem alike_offerElement {c c' : Catalog} (hc : c.Alike c') (wanted : Option OutputKind) (h : s.Alike s')
    {e e' : Element} (alike : e.Alike e') :
    Selection.Alike (offerElement c wanted s e) (offerElement c' wanted s' e') := by
  rw [offerElement_eq_foldl, offerElement_eq_foldl]
  exact List.rel_foldl (P := Selection.Alike) (R := Candidate.Alike)
    (fun _ _ h _ _ alike => alike_offer wanted h alike) h (hc.outputsOf alike)

theorem alike_aim {c c' : Catalog} (hc : c.Alike c') (targets : PerKind String) (h : s.Alike s') (k : OutputKind) :
    Selection.Alike (aim c targets s k) (aim c' targets s' k) := by
  unfold aim
  dsimp only
  split
  · exact alike_set h k .disabled
  · obtain ⟨none, none'⟩ | ⟨e, e', some, some', alike⟩ := rel_none_or_some (hc.document.descendant? (targets.get k))
    · rw [none, none']
      exact h
    · rw [some, some']
      exact alike_offerElement hc _ h alike

theorem alike_choose {c c' : Catalog} (hc : c.Alike c') (targets : Option (PerKind String)) :
    Selection.Alike (choose c targets) (choose c' targets) := by
  have start : Selection.Alike (.both .empty) (.both .empty) := fun k => by
    rw [PerKind.get_both]
    exact .empty
  unfold choose
  rw [offerElements_eq_foldl, offerElements_eq_foldl]
  refine List.rel_foldl (P := Selection.Alike) (R := Element.Alike)
    (fun _ _ h _ _ alike => alike_offerElement hc none h alike) ?_ hc.discover
  split
  · refine List.rel_foldl (P := Selection.Alike) (R := Eq) (fun _ _ h k _ same => ?_) start
      (List.forall₂_same.2 fun _ _ => rfl)
    exact same ▸ alike_aim hc _ h k
  · exact start

theorem alike_selected (h : s.Alike s') :
    Forall₂ (fun p p' => p'.1 = p.1 ∧ Candidate.Alike p.2 p'.2) s.selected s'.selected := by
  refine List.rel_filterMap (R := Eq) ?_ (List.forall₂_same.2 fun _ _ => rfl)
  rintro k _ rfl
  have := h k
  dsimp only
  generalize s.get k = slot at this ⊢
  generalize s'.get k = slot' at this ⊢
  cases this with
  | empty => exact .none
  | disabled => exact .none
  | filled alike => exact .some ⟨rfl, alike⟩

end Selection

namespace Group

theorem Alike.key {g g' : Group} (h : g.Alike g') : g'.key = g.key := by
  obtain ⟨alike, -, -⟩ := h
  cases alike with
  | document => rfl
  | named alike => simp only [Group.key, alike.name]

theorem Alike.graph {g g' : Group} (h : g.Alike g') : g.graph.Alike g'.graph := by
  obtain ⟨alike, -, -⟩ := h
  exact alike

theorem Alike.shaderRef {g g' : Group} (h : g.Alike g') : g'.shaderRef = g.shaderRef := by
  cases h
  rfl

theorem Alike.outputs {g g' : Group} (h : g.Alike g') : g'.outputs = g.outputs := by
  cases h
  rfl

theorem alike_insert {g g' : Group} (h : g.Alike g') {gs gs' : List Group} (hs : Forall₂ Group.Alike gs gs') :
    Forall₂ Group.Alike (Group.insert g gs) (Group.insert g' gs') := by
  induction hs with
  | nil => exact .cons h .nil
  | cons first rest ih =>
      unfold Group.insert Group.precedes
      rw [h.key, first.key]
      split
      · refine .cons ?_ rest
        obtain ⟨alike, r, outputs⟩ := first
        obtain ⟨-, -, more⟩ := h
        exact .mk alike r _
      · split
        · exact .cons h (.cons first rest)
        · exact .cons first ih

end Group

/-- What is selected of catalogs that are alike forms groups that are alike. -/
theorem groups_alike {c c' : Catalog} (hc : c.Alike c') (targets : Option (PerKind String)) :
    Forall₂ Group.Alike (Group.ofSelected (Selection.choose c targets).selected)
      (Group.ofSelected (Selection.choose c' targets).selected) := by
  refine List.rel_foldl (P := Forall₂ Group.Alike) ?_ .nil (Selection.alike_selected (Selection.alike_choose hc targets))
  rintro gs gs' hs ⟨k, p⟩ ⟨k', p'⟩ ⟨same, alike⟩
  dsimp only at same
  subst same
  obtain ⟨alike, o, r⟩ := alike
  exact Group.alike_insert (.mk alike r _) hs

end MaterialGraph
