import MaterialGraph.Proofs.Course.Errors
import MaterialGraph.Proofs.Dependence
import MaterialGraph.Proofs.Walk

/-!
# Noted connections

A composite notes which of its children take a value from which others, and refuses a connection that would close a
cycle of those that it has noted.

* `dependencies_closed`, `dependencies_of_le` : a search whose fuel lasts finds all that it should, and more fuel would
  not change what it finds.
* `Composite.dependsOn_iff` : what a composite says of dependence is true.
* `Composite.isAcyclic_note_iff` : which connections close a cycle.
* `Build.Course.isAcyclic` : a course leaves every composite without a cycle.
* `Connecting` : children of a composite are connected, one after the other.
* `connections_exact` : what is noted is what has been made, without a cycle.
-/

namespace MaterialGraph

set_option autoImplicit false

open Build Assembly Relation

/-! ## The search -/

section Search

variable {producersOf : String → List String} {rest : NameMap Unit → Nat} {fuel : Nat} {seen : NameMap Unit}
  {stack : List String}

theorem contains_insert_iff {seen : NameMap Unit} {name other : String} :
    (seen.insert name ()).contains other = true ↔ other = name ∨ seen.contains other = true := by
  rw [Std.TreeMap.contains_insert, Bool.or_eq_true, beq_iff_eq, Std.LawfulEqCmp.compare_eq_iff_eq, eq_comm]

variable (spends : ∀ (seen : NameMap Unit) (name : String), ¬ seen.contains name = true →
  (producersOf name).length + rest (seen.insert name ()) ≤ rest seen)

include spends

/-- If each name that is new takes its producers from the rest, and fuel lasts for the stack and the rest, a search
finds what has been seen and what is on the stack, and the producers of all that it finds. -/
theorem dependencies_closed
    (lasts : stack.length + rest seen ≤ fuel)
    (closed : ∀ a, seen.contains a → ∀ b ∈ producersOf a, seen.contains b ∨ b ∈ stack) :
    (∀ a, seen.contains a ∨ a ∈ stack → (dependencies producersOf fuel seen stack).contains a) ∧
      ∀ a, (dependencies producersOf fuel seen stack).contains a →
        ∀ b ∈ producersOf a, (dependencies producersOf fuel seen stack).contains b := by
  fun_induction dependencies producersOf fuel seen stack with
  | case1 =>
      refine ⟨fun a ha => ha.resolve_right List.not_mem_nil, fun a ha b hb => ?_⟩
      exact (closed a ha b hb).resolve_right List.not_mem_nil
  | case2 =>
      rw [List.length_cons] at lasts
      omega
  | case3 fuel seen name stack old ih =>
      rw [List.length_cons] at lasts
      have onStack {b : String} (hb : b ∈ name :: stack) : seen.contains b ∨ b ∈ stack :=
        (List.mem_cons.1 hb).imp_left fun (same : b = name) => same ▸ old
      obtain ⟨found, closed'⟩ := ih (by omega) fun a ha b hb => (closed a ha b hb).elim .inl onStack
      exact ⟨fun a ha => found a (ha.elim .inl onStack), closed'⟩
  | case4 fuel seen name stack new ih =>
      have less := spends seen name new
      rw [List.length_cons] at lasts
      have moved {b : String} (hb : seen.contains b ∨ b ∈ name :: stack) :
          (seen.insert name ()).contains b ∨ b ∈ producersOf name ++ stack := by
        rw [contains_insert_iff, List.mem_append]
        rcases hb with old | waiting
        · exact .inl (.inr old)
        · exact (List.mem_cons.1 waiting).imp .inl .inr
      obtain ⟨found, closed'⟩ := ih (by rw [List.length_append]; omega) fun a ha b hb => by
        rcases contains_insert_iff.1 ha with rfl | ha
        · exact .inr (List.mem_append_left _ hb)
        · exact moved (closed a ha b hb)
      exact ⟨fun a ha => found a (moved ha), closed'⟩

/-- More fuel than lasts changes nothing: the search comes to its end by itself. -/
theorem dependencies_of_le
    (lasts : stack.length + rest seen ≤ fuel) {more : Nat} (le : fuel ≤ more) :
    dependencies producersOf more seen stack = dependencies producersOf fuel seen stack := by
  fun_induction dependencies producersOf fuel seen stack generalizing more with
  | case1 => cases more <;> rfl
  | case2 =>
      rw [List.length_cons] at lasts
      omega
  | case3 fuel seen name stack old ih =>
      obtain ⟨more, rfl⟩ : ∃ n, more = n + 1 := ⟨more - 1, by omega⟩
      rw [List.length_cons] at lasts
      rw [dependencies, if_pos old]
      exact ih (by omega) (by omega)
  | case4 fuel seen name stack new ih =>
      obtain ⟨more, rfl⟩ : ∃ n, more = n + 1 := ⟨more - 1, by omega⟩
      have less := spends seen name new
      rw [List.length_cons] at lasts
      rw [dependencies, if_neg new]
      exact ih (by rw [List.length_append]; omega) (by omega)

end Search

/-- If only the step from `a` to `b` is new, a path consists of old steps, or it leads to `a` and on from `b` by old
steps. -/
theorem crosses {α : Type} {r r' : α → α → Prop} {a b x y : α} (path : TransGen r' x y)
    (steps : ∀ u v, r' u v → u = a ∧ v = b ∨ r u v) : TransGen r x y ∨ ReflTransGen r x a ∧ ReflTransGen r b y := by
  induction path with
  | single step =>
      rcases steps _ _ step with ⟨rfl, rfl⟩ | old
      · exact .inr ⟨.refl, .refl⟩
      · exact .inl (.single old)
  | tail _ step ih =>
      rcases steps _ _ step with ⟨rfl, rfl⟩ | old
      · exact .inr ⟨ih.elim TransGen.to_reflTransGen And.left, .refl⟩
      · exact ih.imp (·.tail old) fun ⟨before, behind⟩ => ⟨before, behind.tail old⟩

namespace Composite

variable {k : Composite} {e : Edge} {consumer producer name : String}

/-- A child takes a value from another, as far as it is noted. -/
def TakesFrom (k : Composite) (consumer producer : String) : Prop := producer ∈ k.producersOf consumer

/-- No child takes a value from itself, directly or through others. -/
def IsAcyclic (k : Composite) : Prop := ∀ name, ¬ TransGen k.TakesFrom name name

/-! ## The fuel of the search -/

/-- The number of noted connections to consumers that have not been seen. -/
def unsearched (k : Composite) (seen : NameMap Unit) : Nat :=
  ((k.producers.keys.filter fun name => !seen.contains name).map fun name => (k.producersOf name).length).sum

theorem unsearched_insert (k : Composite) (seen : NameMap Unit) (name : String) (new : ¬ seen.contains name = true) :
    (k.producersOf name).length + k.unsearched (seen.insert name ()) ≤ k.unsearched seen := by
  refine Nat.le_of_eq (Eq.symm ?_)
  refine sum_unseen Std.TreeMap.nodup_keys (Bool.eq_false_iff.2 new) (fun other => ?_) fun absent => ?_
  · rw [Bool.eq_iff_iff, contains_insert_iff, Bool.or_eq_true, decide_eq_true_iff]
  · rw [producersOf, Std.TreeMap.getD_eq_fallback (mt Std.TreeMap.mem_keys.2 absent), List.length_nil]

/-- The fuel of a search lasts for a first name and all connections. -/
theorem length_add_unsearched (k : Composite) (name : String) : [name].length + k.unsearched ∅ = k.searchLength := by
  have all : (k.producers.keys.filter fun name => !(∅ : NameMap Unit).contains name) = k.producers.keys :=
    List.filter_eq_self.2 fun name _ => by rw [Std.TreeMap.contains_emptyc]; rfl
  have lengths : (k.producers.keys.map fun name => (k.producersOf name).length) =
      k.producers.toList.map fun entry => entry.2.length := by
    rw [← Std.TreeMap.map_fst_toList_eq_keys, List.map_map]
    refine List.map_congr_left fun entry mem => ?_
    have there : k.producers[entry.1]? = some entry.2 := Std.TreeMap.mem_toList_iff_getElem?_eq_some.1 mem
    change (k.producers.getD entry.1 []).length = _
    rw [Std.TreeMap.getD_eq_getD_getElem?, there, Option.getD_some]
  have sums (l : List (String × List String)) (n : Nat) :
      l.foldl (fun n entry => n + entry.2.length) n = n + (l.map fun entry => entry.2.length).sum := by
    induction l generalizing n with
    | nil => rfl
    | cons entry l ih => rw [List.foldl_cons, ih, List.map_cons, List.sum_cons, Nat.add_assoc]
  rw [searchLength, Std.TreeMap.foldl_eq_foldl_toList, sums, unsearched, all, lengths, List.length_singleton]

/-! ## What is said of dependence -/

/-- A composite says that a child depends on another if and only if it is the other, or takes a value from it through
connections that are noted. -/
theorem dependsOn_iff {a b : String} : k.dependsOn a b = true ↔ ReflTransGen k.TakesFrom a b := by
  constructor
  · refine dependencies_sound (fun x path y takes => path.tail takes) (fun x seen => ?_) fun x waiting => ?_
    · rw [Std.TreeMap.contains_emptyc] at seen
      cases seen
    · rw [List.mem_singleton.1 waiting]
  · intro path
    have ⟨found, closed⟩ := dependencies_closed k.unsearched_insert (Nat.le_of_eq (k.length_add_unsearched a))
      fun x seen => by rw [Std.TreeMap.contains_emptyc] at seen; cases seen
    induction path with
    | refl => exact found a (.inr (List.mem_singleton_self a))
    | tail _ takes ih => exact closed _ ih _ takes

/-- The search comes to its end by itself: more fuel would not change what it finds. -/
theorem dependencies_searchLength (k : Composite) (name : String) (more : Nat) :
    dependencies k.producersOf (k.searchLength + more) ∅ [name] =
      dependencies k.producersOf k.searchLength ∅ [name] :=
  dependencies_of_le k.unsearched_insert (Nat.le_of_eq (k.length_add_unsearched name)) (Nat.le_add_right _ _)

/-! ## Cycles -/

theorem takesFrom_note :
    (k.note e).TakesFrom consumer producer ↔
      consumer = e.consumer ∧ producer = e.producer ∨ k.TakesFrom consumer producer := mem_producersOf_note

theorem isAcyclic_new (g : Graph) : ({ graph := g } : Composite).IsAcyclic := by
  intro name path
  obtain ⟨producer, takes, -⟩ := TransGen.head'_iff.1 path
  rw [TakesFrom, producersOf_new] at takes
  cases takes

theorem IsAcyclic.congr {k k' : Composite} (h : k.IsAcyclic) (same : k'.producers = k.producers) : k'.IsAcyclic := by
  have takes : k'.TakesFrom = k.TakesFrom := by
    unfold TakesFrom producersOf
    rw [same]
  intro name
  rw [takes]
  exact h name

/-- A connection closes a cycle if and only if its producer depends on its consumer already. -/
theorem IsAcyclic.note_iff (h : k.IsAcyclic) :
    (k.note e).IsAcyclic ↔ ¬ ReflTransGen k.TakesFrom e.producer e.consumer := by
  constructor
  · intro acyclic back
    have old : ReflTransGen (k.note e).TakesFrom e.producer e.consumer :=
      ReflTransGen.mono (fun _ _ takes => takesFrom_note.2 (.inr takes)) _ _ back
    exact acyclic e.consumer (.head' (takesFrom_note.2 (.inl ⟨rfl, rfl⟩)) old)
  · intro free name path
    rcases crosses path fun _ _ => takesFrom_note.1 with old | ⟨before, behind⟩
    · exact h name old
    · exact free (behind.trans before)

end Composite

/-! ## Calls -/

variable {σ : Type} {E : Env σ} {c c' : Context σ} {k : Composite} {id x y : PartId} {e : Edge} {output : Option String}
  {i : Input} {res : Result Unit}

theorem closesCycle_eq (there : c.assembly.composite? id = some k) :
    closesCycle id e E c = .ok (if k.dependsOn e.producer e.consumer then some k else none, c) := by
  rw [closesCycle, bind_apply _ assembly_apply, there]
  exact pure_apply _

/-- A connection that closes a cycle is refused outright. -/
theorem connectChildren_of_dependsOn (there : c.assembly.composite? id = some k)
    (depends : k.dependsOn e.producer e.consumer = true) : connectChildren id e x output y i E c =
      .ok (.error (.cycle (e.producer ++ " -> " ++ e.consumer ++ " in " ++ k.graph.name)), c) := by
  rw [connectChildren, bind_apply _ (closesCycle_eq there), if_pos depends]
  exact pure_apply _

/-- Any other connection is attempted, and noted if it is made. -/
theorem connectChildren_eq_ok_iff (there : c.assembly.composite? id = some k)
    (free : ¬ k.dependsOn e.producer e.consumer = true) :
    connectChildren id e x output y i E c = .ok (res, c') ↔
      ∃ c₁, connect x output y i E c = .ok (res, c₁) ∧ c' = if res.isOk then c₁.edit (.edge id e) else c₁ := by
  rw [connectChildren, bind_apply _ (closesCycle_eq there), if_neg free]
  dsimp only
  rw [andThen, bind_eq_ok]
  constructor
  · rintro ⟨res', c₁, call, ends⟩
    cases res' <;> cases ends <;> exact ⟨_, call, rfl⟩
  · rintro ⟨c₁, call, rfl⟩
    refine ⟨res, c₁, call, ?_⟩
    cases res <;> rfl

/-- What a composite makes of a request to connect two of its children. -/
structure Settles (k : Composite) (id : PartId) (e : Edge) (x : PartId) (output : Option String) (y : PartId)
    (i : Input) (E : Env σ) (c : Context σ) : Prop where
  /-- A connection that would close a cycle is refused, and nothing is changed. -/
  refused : ¬ (k.note e).IsAcyclic → connectChildren id e x output y i E c =
    .ok (.error (.cycle (e.producer ++ " -> " ++ e.consumer ++ " in " ++ k.graph.name)), c)
  /-- Any other is attempted, and noted if it is made. -/
  attempted : (k.note e).IsAcyclic → ∀ res c', connectChildren id e x output y i E c = .ok (res, c') ↔
    ∃ c₁, connect x output y i E c = .ok (res, c₁) ∧ c' = if res.isOk then c₁.edit (.edge id e) else c₁
  /-- A cycle is reported only if there would be one. -/
  reported : ∀ res c', connectChildren id e x output y i E c = .ok (res, c') →
    ((∃ text, res = .error (.cycle text)) ↔ ¬ (k.note e).IsAcyclic)
  /-- What was noted stays, and the connection is added if it is made; there is no cycle. -/
  noted : ∀ res c', connectChildren id e x output y i E c = .ok (res, c') →
    ∃ k', c'.assembly.composite? id = some k' ∧ k'.IsAcyclic ∧ ∀ consumer producer,
      k'.TakesFrom consumer producer ↔
        k.TakesFrom consumer producer ∨ res = .ok () ∧ consumer = e.consumer ∧ producer = e.producer

/-- To connect parts leaves every composite as it is. -/
theorem composite?_connect (call : connect x output y i E c = .ok (res, c')) :
    c'.assembly.composite? id = c.assembly.composite? id :=
  (after_connect.of_eq call).rebinds.composite id

/-- A composite without cycles settles any request. -/
theorem settles_of_isAcyclic (there : c.assembly.composite? id = some k) (acyclic : k.IsAcyclic) (e : Edge) (x : PartId)
    (output : Option String) (y : PartId) (i : Input) (E : Env σ) : Settles k id e x output y i E c := by
  have closes : k.dependsOn e.producer e.consumer = true ↔ ¬ (k.note e).IsAcyclic := by
    rw [acyclic.note_iff, not_not, Composite.dependsOn_iff]
  by_cases cyclic : (k.note e).IsAcyclic
  · have free : ¬ k.dependsOn e.producer e.consumer = true := fun depends => closes.1 depends cyclic
    refine ⟨fun h => absurd cyclic h, fun _ res c' => connectChildren_eq_ok_iff there free, fun res c' call => ?_,
      fun res c' call => ?_⟩ <;> obtain ⟨c₁, connected, rfl⟩ := (connectChildren_eq_ok_iff there free).1 call
    · -- whatever a connection ends in, it does not look for cycles
      refine iff_of_false ?_ (not_not.2 cyclic)
      rintro ⟨text, rfl⟩
      exact neverCyclic_connect x output y i E c _ _ connected text rfl
    · have kept := (composite?_connect connected).trans there
      cases res with
      | error error => exact ⟨k, kept, acyclic, fun _ _ => (or_iff_left (by rintro ⟨⟨⟩, -⟩)).symm⟩
      | ok =>
          refine ⟨k.note e, ?_, cyclic, fun _ _ => ?_⟩
          · change (c₁.assembly.apply (.edge id e)).composite? id = _
            rw [composite?_edge, if_pos rfl, kept, Option.map_some]
          · rw [Composite.takesFrom_note, or_comm, and_iff_right rfl]
  · have depends := closes.2 cyclic
    refine ⟨fun _ => connectChildren_of_dependsOn there depends, fun h => absurd h cyclic, fun res c' call => ?_,
      fun res c' call => ?_⟩ <;> cases (connectChildren_of_dependsOn there depends).symm.trans call
    · exact iff_of_true ⟨_, rfl⟩ cyclic
    · exact ⟨k, there, acyclic, fun _ _ => (or_iff_left (by rintro ⟨⟨⟩, -⟩)).symm⟩

/-! ## Sequences of calls -/

/-- Children of a composite are connected one after the other, whatever each call ends in. What happens in between
leaves alone what the composite has noted. -/
inductive Connecting (id : PartId) (c : Context σ) : Context σ → Prop
  | start : Connecting id c c
  | call {E : Env σ} {c₁ c₂ : Context σ} {e : Edge} {x y : PartId} {output : Option String} {i : Input}
      {res : Result Unit} (before : Connecting id c c₁)
      (call : connectChildren id e x output y i E c₁ = .ok (res, c₂)) : Connecting id c c₂
  | between {c₁ c₂ : Context σ} (before : Connecting id c c₁)
      (kept : (c₂.assembly.composite? id).map Composite.producers =
        (c₁.assembly.composite? id).map Composite.producers) : Connecting id c c₂

/-- Calls keep a composite without cycles. -/
theorem Connecting.isAcyclic (h : Connecting id c c') (there : c.assembly.composite? id = some k)
    (acyclic : k.IsAcyclic) : ∃ k', c'.assembly.composite? id = some k' ∧ k'.IsAcyclic := by
  induction h with
  | start => exact ⟨k, there, acyclic⟩
  | call _ call ih =>
      obtain ⟨k₁, there₁, acyclic₁⟩ := ih
      obtain ⟨k₂, there₂, acyclic₂, -⟩ := (settles_of_isAcyclic there₁ acyclic₁ _ _ _ _ _ _).noted _ _ call
      exact ⟨k₂, there₂, acyclic₂⟩
  | between _ kept ih =>
      obtain ⟨k₁, there₁, acyclic₁⟩ := ih
      rw [there₁, Option.map_some, Option.map_eq_some_iff] at kept
      obtain ⟨k₂, there₂, same⟩ := kept
      exact ⟨k₂, there₂, acyclic₁.congr same⟩

/-- What a composite notes of connections is exact. Whatever it has noted, the search for what a child depends on comes
to its end and finds what the connections lead to, no more and no less. If it starts without a cycle, then whatever
connections of its children have been asked for, there is none: a connection is refused as cyclic, with nothing changed,
if and only if it would close a cycle, and any other is noted if and only if it is made. -/
theorem connections_exact :
    (∀ (k : Composite) (consumer producer : String),
      (k.dependsOn consumer producer = true ↔ ReflTransGen k.TakesFrom consumer producer) ∧
        ∀ more, dependencies k.producersOf (k.searchLength + more) ∅ [consumer] =
          dependencies k.producersOf k.searchLength ∅ [consumer]) ∧
      ∀ {σ : Type} (c c' : Context σ) (id : PartId) (k₀ : Composite), c.assembly.composite? id = some k₀ →
        k₀.IsAcyclic → Connecting id c c' → ∃ k, c'.assembly.composite? id = some k ∧ k.IsAcyclic ∧
          ∀ e x output y i E, Settles k id e x output y i E c' := by
  refine ⟨fun k consumer producer => ⟨Composite.dependsOn_iff, k.dependencies_searchLength consumer⟩, ?_⟩
  intro σ c c' id k₀ there acyclic connecting
  obtain ⟨k, there', acyclic'⟩ := connecting.isAcyclic there acyclic
  exact ⟨k, there', acyclic', settles_of_isAcyclic there' acyclic'⟩

/-- A composite that has noted nothing, and two leaves: a node, and what stands for a surface. -/
def bareGraph : Context Recorder where
  system := {}
  assembly := { parts := #[.composite { graph := .named { name := "g" } }, .leaf ⟨.owned ⟨0⟩, .plain⟩,
    .leaf ⟨.nothing, .surface⟩] }

/-- The node is connected to the surface. The connection back is refused as cyclic. -/
theorem connections_exact_bareGraph :
    let E : Env Recorder := { renderer := Recorder.renderer, catalog := ⟨{}, none⟩ }
    let bsdf : Input := { name := "bsdf", type := "BSDF" }
    bareGraph.assembly.composite? 0 = some { graph := .named { name := "g" } } ∧
      ({ graph := .named { name := "g" } } : Composite).IsAcyclic ∧
      ∃ c, connectChildren 0 ⟨"a", "b"⟩ 1 none 2 bsdf E bareGraph = .ok (.ok (), c) ∧ Connecting 0 bareGraph c ∧
        ∃ k, c.assembly.composite? 0 = some k ∧ k.IsAcyclic ∧ k.TakesFrom "b" "a" ∧
          connectChildren 0 ⟨"b", "a"⟩ 2 none 1 bsdf E c =
            .ok (.error (.cycle ("b" ++ " -> " ++ "a" ++ " in " ++ k.graph.name)), c) := by
  intro E bsdf
  have new := Composite.isAcyclic_new (.named { name := "g" })
  have made : (connectChildren 0 ⟨"a", "b"⟩ 1 none 2 bsdf E bareGraph).toOption.map (·.1.isOk) = some true := by
    decide +kernel
  obtain ⟨res, c, call, ok⟩ := exists_of_toOption made
  obtain ⟨⟩ | ⟨⟩ := res
  · cases ok
  have connecting : Connecting 0 bareGraph c := .call .start call
  obtain ⟨k₀, there₀, -, settles₀⟩ := connections_exact.2 bareGraph bareGraph 0 _ rfl new .start
  obtain ⟨k, there, acyclic, settles⟩ := connections_exact.2 bareGraph c 0 _ rfl new connecting
  obtain ⟨k', there', -, takes⟩ := (settles₀ _ _ _ _ _ _).noted _ _ call
  cases there.symm.trans there'
  have takes : k.TakesFrom "b" "a" := (takes _ _).2 (.inr ⟨rfl, rfl, rfl⟩)
  refine ⟨rfl, new, c, call, connecting, k, there, acyclic, takes, (settles ⟨"b", "a"⟩ 2 none 1 bsdf E).refused ?_⟩
  rw [acyclic.note_iff, not_not]
  exact .single takes

/-! ## Courses -/

/-- A course leaves composites without cycles. -/
theorem Build.Course.isAcyclic {W : Env σ} {s : Scene} {p : Place} (h : Course W s p c c')
    (acyclic : Each Composite.IsAcyclic c.assembly) : Each Composite.IsAcyclic c'.assembly := by
  have new {g : Graph} := Composite.isAcyclic_new g
  induction h with
  | refl | message | cycle | busy => exact acyclic
  | trans _ _ ih₁ ih₂ => exact ih₂ (ih₁ acyclic)
  | mark _ mark => cases mark <;> exact acyclic
  | task _ ih => exact ih acyclic
  | refused _ creation => exact creation.assembly ▸ acyclic
  | wrap _ creation | geometry _ creation => exact Each.leaf (creation.assembly ▸ acyclic) _
  | own _ _ _ ih | expansion _ _ _ _ ih => exact ih (acyclic.composite new)
  | shared _ _ _ ih | settle _ _ ih | overriding _ _ _ _ _ ih | search _ _ _ _ _ ih | output _ _ ih | give _ _ ih
    | input _ _ _ _ _ _ ih | follow _ _ ih | viaTop _ _ _ ih => exact ih acyclic
  | leafChild _ _ _ _ makes =>
      exact Each.modify (Each.leaf (makes.assembly ▸ acyclic) _) fun _ _ old => old.congr rfl
  | compositeChild _ _ _ ih => exact Each.modify (ih (acyclic.composite new)) fun _ _ old => old.congr rfl
  | socket => exact Each.modify acyclic fun _ _ old => old.congr rfl
  | link composite _ _ free _ _ connected =>
      -- the composite has not changed since it was asked whether the connection closes a cycle
      refine Each.modify (acyclic.congr fun _ => composite?_connect connected) fun k' there old => ?_
      cases composite.symm.trans ((composite?_connect connected).symm.trans there)
      rw [old.note_iff, ← Composite.dependsOn_iff, free]
      exact Bool.false_ne_true
  | unlinked _ _ _ _ _ connected | connection _ _ connected => exact acyclic.congr fun _ => composite?_connect connected
  | literal _ _ bound => exact acyclic.congr (after_bindInput _ _ bound).rebinds.composite
  | top => exact acyclic.composite new
  | viaGraph _ starts _ _ _ _ ih =>
      cases starts with
      | first => exact ih (acyclic.composite new)
      | again => exact ih acyclic

end MaterialGraph
