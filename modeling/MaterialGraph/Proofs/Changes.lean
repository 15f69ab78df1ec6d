import MaterialGraph.Proofs.Prefixes

/-!
# Changes

A course is a sequence of changes, each at a scene that is situated (`Course.changes`). What each change keeps, a course
keeps. Of the end of its course a change knows which parts are still apart there.
-/

namespace MaterialGraph

set_option autoImplicit false

open Build Assembly Relation

variable {σ : Type} {W : Env σ} {c c₁ c' e : Context σ} {s : Scene} {p : Place} {selected : List (OutputKind × Candidate)}
  {id x : PartId} {g : Graph} {n : Node}

/-! ## Scenes on the way to an end -/

/-- What is known at a scene of an end: where groups are built or settled, only new parts are noted up to there, and the
composite of an override is still apart. -/
def Ahead (c e : Context σ) : Scene → Prop
  | .load _ | .settle _ _ => Advances c e
  | .override id _ => IsApart e id
  | _ => True

theorem Ahead.before (ahead : Ahead c' e s) (advances : Advances c c') : Ahead c e s := by
  cases s with
  | load | settle => exact advances.trans ahead
  | override => exact ahead
  | graph | ask | give | node | input => trivial

/-- A part that is added now has not been noted. -/
theorem Orderly.isApart_added (orderly : Orderly c) (q : Part) : IsApart (c.edit (.add q)) c.assembly.size :=
  ⟨fun h => Nat.lt_irrefl _ (orderly.lt_of_adopted h), fun h => Nat.lt_irrefl _ (orderly.lt_of_sharing h)⟩

/-! ## Changes -/

/-- One change on the way to an end. -/
inductive Change (W : Env σ) (selected : List (OutputKind × Candidate)) (e c : Context σ) : Context σ → Prop
  | message {event : Event} (message : IsMessage event) : Change W selected e c (c.push event)
  | mark {edit : Edit} (mark : IsMark edit) : Change W selected e c (c.edit edit)
  | refused {c₁ : Context σ} {type : NodeType} {role : Role} {settings : List (InputKey × Bound)}
      {name : Option String} {error : LoadError}
      (held : ∀ key h, (key, Bound.node h) ∈ settings → ∃ x, Holds c.assembly x h)
      (creation : CreatesLeaf W.renderer type role settings name c (.error error) c₁) : Change W selected e c c₁
  | wrap {c₁ : Context σ} {x : PartId} {h : Handle} {l : Leaf} (holds : Holds c.assembly x h)
      (creation : CreatesLeaf W.renderer .passthrough .wrap [(.color, .node h)] none c (.ok l) c₁)
      (apart : IsApart e c₁.assembly.size) : Change W selected e c (c₁.edit (.add (.leaf l)))
  | composite {g : Graph} (graph : g ∈ W.catalog.graphs) :
      Change W selected e c (c.edit (.add (.composite { graph := g })))
  | leafChild {p : Place} {id : PartId} {g : Graph} {n : Node} {l : Leaf} {c₁ : Context σ}
      (situated : Situated W selected p c (.node id g n)) (makes : MakesLeaf W.renderer n c l c₁) :
      Change W selected e c ((c₁.edit (.add (.leaf l))).edit (.child id n.name c₁.assembly.size))
  | compositeChild {p : Place} {id x : PartId} {g : Graph} {n : Node} {h : NodeGraph}
      (situated : Situated W selected p c (.node id g n)) (recipe : Recipe.of n = .ok .expand)
      (implementation : (W.catalog.nodeDefOf? n).bind W.catalog.implementation? = some h)
      (graph : HasGraph c.assembly x (.named h)) : Change W selected e c (c.edit (.child id n.name x))
  | socket (id : PartId) (interface : String) (so : Socket) : Change W selected e c (c.edit (.socket id interface so))
  | edge (id : PartId) (edge : Edge) : Change W selected e c (c.edit (.edge id edge))
  | sibling {s : Scene} {p : Place} {id x y : PartId} {g : Graph} {n m : Node} {output : Option String} {i : Input}
      {res : Result Unit} {c₁ : Context σ} (situated : Situated W selected p c s) (composite : HasGraph c.assembly id g)
      (consumes : Consumes id g n s) (draws : Draws W.catalog c.assembly id g n m)
      (producer : c.assembly.child? id m.name = some x) (receives : Receives c.assembly s y)
      (connected : connect x output y i (W.at p) c = .ok (res, c₁))
      (noted : res = .ok () → e.assembly.HasEdge id n.name m.name) : Change W selected e c c₁
  | connection {s : Scene} {p : Place} {x y : PartId} {output : Option String} {i : Input} {res : Result Unit}
      {c₁ : Context σ} (situated : Situated W selected p c s) (ahead : Ahead c₁ e s)
      (provides : Provides W.catalog c.assembly s x output) (receives : Receives c.assembly s y)
      (connected : connect x output y i (W.at p) c = .ok (res, c₁)) :
      Change W selected e c c₁
  | literal {s : Scene} {p : Place} {element i : Input} {y : PartId} {value : String} {res : Result Unit}
      {c₁ : Context σ} (situated : Situated W selected p c s) (supplies : Supplies W.catalog s element y i)
      (literal : element.value? = some value)
      (bound : bindInput y i (.literal value element.type) (W.at p) c = .ok (res, c₁)) : Change W selected e c c₁
  | geometry {g : GeomPropDef} {l : Leaf} {quantity : Lookup} {c₁ : Context σ}
      (absent : c.assembly.geometry[g.name]? = none)
      (creation : CreatesLeaf W.renderer .inputLookup .plain [(.value, .word quantity.id)] (some g.name) c (.ok l) c₁) :
      Change W selected e c ((c₁.edit (.add (.leaf l))).edit (.geometry g.name c₁.assembly.size))
  | top {t : PartId} (absent : c.assembly.top = none)
      (graph : HasGraph c.assembly t (.document W.catalog.document)) : Change W selected e c (c.edit (.top t))
  | freeStanding {h : NodeGraph} {state : Construction} (mem : h ∈ W.catalog.document.nodeGraphs)
      (there : StandsFor W c.assembly state.id h.name) :
      Change W selected e c (c.edit (.freeStanding h.name state))

theorem Change.steps (h : Change W selected e c c') : Steps W.renderer c c' := by
  cases h with
  | message message => exact .single (.message message)
  | mark mark => exact .single (.mark mark)
  | refused held creation => exact .single (.refused held creation)
  | wrap holds creation =>
      refine .single (.create rfl (fun key h mem => ?_) creation)
      cases List.mem_singleton.1 mem
      exact ⟨_, holds⟩
  | composite => exact .single (.composite _)
  | leafChild _ makes => exact (ReflTransGen.single makes.steps).tail (.note (.child _ _ _))
  | compositeChild => exact .single (.note (.child _ _ _))
  | socket => exact .single (.note (.socket _ _ _))
  | edge => exact .single (.note (.edge _ _))
  | sibling _ _ _ _ _ _ connected | connection _ _ _ _ connected => exact (Connects.of_eq connected).steps
  | literal _ _ _ bound =>
      have binds := Binds.of_eq bound
      exact .single (.literal binds)
  | geometry absent creation => exact creation.steps_geometry absent
  | top absent => exact .single (.share (.top absent))
  | freeStanding => exact .single (.share (.freeStanding _ _))

abbrev Changes (W : Env σ) (selected : List (OutputKind × Candidate)) (e : Context σ) : Context σ → Context σ → Prop :=
  ReflTransGen (Change W selected e)

theorem Changes.steps (h : Changes W selected e c c') : Steps W.renderer c c' := by
  induction h with
  | refl => exact .refl
  | tail _ change ih => exact ih.trans change.steps

theorem Changes.starts {h : NodeGraph} (starts : Starts h c x c') (houses : Houses W c)
    (mem : h ∈ W.catalog.document.nodeGraphs) : Changes W selected e c c' := by
  cases starts with
  | first =>
      have added : HasGraph (c.edit (.add (.composite { graph := .named h }))).assembly c.assembly.size (.named h) :=
        hasGraph_added _
      have graph : Graph.named h ∈ W.catalog.graphs := Catalog.mem_graphs_of_own (Document.named_mem_graphs.2 mem)
      exact (ReflTransGen.single (.composite graph)).tail (.freeStanding mem ⟨h, mem, rfl, added⟩)
  | again built =>
      have there : StandsFor W c.assembly x h.name := houses.graph _ _ built
      exact .single (.freeStanding mem there)

/-- A course is a sequence of changes. -/
theorem Build.Course.changes (own : ∀ x ∈ selected, x.2.IsOf W.catalog) (h : Course W s p c c')
    (situated : Situated W selected p c s) (ahead : Ahead c' e s) (later : Later c' e) (tidy : Tidy e.journal) :
    Changes W selected e c c' := by
  induction h with
  | refl => exact .refl
  | trans first second ih₁ ih₂ =>
      have faithful := first.steps.moves.faithful situated.founded.faithful
      have before := ih₁ situated (ahead.before (second.advances faithful)) (second.later.trans later)
      exact before.trans (ih₂ (situated.course own first) ahead later)
  | message _ message => exact .single (.message message)
  | cycle | busy => exact .single (.message (.warning _))
  | mark _ mark => exact .single (.mark mark)
  | task _ ih =>
      have given := ih situated.task trivial ((Later.mark _ (.ended _ _)).trans later)
      exact (ReflTransGen.head (.mark (.began _)) given).tail (.mark (.ended _ _))
  | give found _ ih => exact ih (situated.give found) trivial later
  | refused held creation => exact .single (.refused held creation)
  | @wrap gr id p c c₁ x h l holds creation =>
      have orderly : Orderly c₁ :=
        ⟨creation.moves.faithful situated.founded.faithful,
          tidy.of_suffix ((List.suffix_cons _ _).trans later.suffix)⟩
      have there : c₁.assembly.size < (c₁.edit (.add (.leaf l))).assembly.size := by
        rw [Context.edit_assembly, size_add]
        exact Nat.lt_succ_self _
      exact .single (.wrap holds creation ((orderly.isApart_added _).advances ahead there))
  | own mem _ _ ih =>
      cases situated.sits
      have graph := graph_of_group own mem
      have founded := situated.founded.composite graph
      exact .head (.composite graph) (ih ⟨founded, graph, situated.known, hasGraph_added _⟩ trivial later)
  | shared _ top _ ih =>
      have there := situated.founded.houses.top _ top
      exact ih ⟨situated.founded, .head _, situated.known, there⟩ trivial later
  | settle _ _ ih => exact ih ⟨situated.founded, trivial, situated.known, trivial⟩ ahead later
  | overriding _ _ graph apart inner ih =>
      have advances := inner.advances situated.founded.faithful
      have last := (apart.advances advances graph.lt_size).advances ahead
        (Nat.lt_of_lt_of_le graph.lt_size advances.size)
      exact ih ⟨situated.founded, trivial, situated.known, ⟨_, graph⟩, apart⟩ last later
  | search child composite _ _ _ ih =>
      rw [← situated.founded.faithful.assembly] at child
      have adopted := mem_adopted_of_noted (noted_of_child? situated.founded.faithful.fits child)
      have sits := situated.founded.graph composite
      exact ih ⟨situated.founded, sits, situated.known, composite, .inl adopted⟩ trivial later
  | output _ _ ih => exact ih (situated.output _) trivial later
  | leafChild _ _ _ _ makes => exact .single (.leafChild situated makes)
  | expansion _ implementation _ _ ih =>
      have expanded := situated.expanded implementation
      exact .head (.composite expanded.sits) (ih expanded trivial later)
  | @compositeChild id g n p c c₁ h recipe implementation inner ih =>
      have expanded := situated.expanded implementation
      have changes := ih expanded trivial ((Later.note _ (.child _ _ _)).trans later)
      have grown : Later c c₁ := ⟨(Extends.add _ _).trans inner.extends, (List.suffix_cons _ _).trans inner.suffix⟩
      have lies : Lies c₁ p (.node id g n) :=
        ⟨situated.lies.1.extends grown.ext, situated.lies.2.imp_left (adopted_of_suffix grown.suffix)⟩
      have situated₁ : Situated W selected p c₁ (.node id g n) :=
        ⟨(expanded.course own inner).founded, situated.sits, situated.known, lies⟩
      exact (ReflTransGen.head (.composite expanded.sits) changes).tail
        (.compositeChild situated₁ recipe implementation ((hasGraph_added _).extends inner.extends))
  | input _ noted _ definition declared _ ih => exact ih (situated.input definition declared noted) trivial later
  | follow draws _ ih =>
      exact ih ⟨situated.founded, situated.sits.needed draws.2, situated.known, situated.lies⟩ trivial later
  | socket => exact .single (.socket _ _ _)
  | link composite consumes draws _ producer receives connected =>
      have kept := ((Connects.of_eq connected).rebinds.composite _).trans composite
      have noted := later.ext.edge (hasEdge_edge kept _)
      have made := Change.sibling situated ⟨_, composite, rfl⟩ consumes draws producer receives connected fun _ => noted
      exact (ReflTransGen.single made).tail (.edge _ _)
  | unlinked composite consumes draws producer receives connected =>
      exact .single (.sibling situated composite consumes draws producer receives connected nofun)
  | connection provides receives connected => exact .single (.connection situated ahead provides receives connected)
  | literal supplies literal bound => exact .single (.literal situated supplies literal bound)
  | geometry absent creation => exact .single (.geometry absent creation)
  | top absent => exact (ReflTransGen.single (.composite (.head _))).tail (.top absent (hasGraph_added _))
  | viaTop _ top _ ih => exact ih (situated.top top _) trivial later
  | @viaGraph s p c c₁ c₂ h g x required sub res wants starts graph way call inner ih =>
      have houses := situated.founded.houses
      have begun : Changes W selected e c c₁ := .starts starts houses wants.mem
      have changes := ih (situated.graph wants starts graph) trivial ((Later.share _ (.freeStanding _ _)).trans later)
      have there : StandsFor W c₂.assembly x h.name := (starts.houses houses wants.mem).2.extends inner.extends
      exact (begun.trans changes).tail (.freeStanding wants.mem there)

end MaterialGraph
