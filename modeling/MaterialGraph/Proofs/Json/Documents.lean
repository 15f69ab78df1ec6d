import MaterialGraph.Document.Json
import MaterialGraph.Proofs.Json.Grammar
import MaterialGraph.Proofs.Json.Records

/-!
# Documents in JSON texts

Reading undoes writing, part by part, and no part depends on the order of the members of an object.

* `decode_encode` : a part is read back from the tree that is written of it.
* `lexed_encode` : the tree that is written has lexemes in order.
* `Document.parse_eq_ok_iff` : a document is read from the texts of the trees that it is read from.
* `Document.parse_render_and_reordered` : documents are read back, and read the same from reordered texts.
-/

namespace MaterialGraph

open Json

set_option autoImplicit false

/-! ## Reading undoes writing -/

namespace Json

@[simp]
theorem given_sparseText {name n : String} {s : Option String} :
    given name (sparseText n s) = if n = name then (s.map ofText).toList else [] := by
  cases s <;> simp [sparseText]

@[simp]
theorem ofValues_sparse {s : Option String} :
    ofValues (some none) (optional text) (s.map ofText).toList = some s := by
  cases s <;> simp

@[simp]
theorem list_ofList {α : Type} {decoder : Decoder α} {encode : α → Json} (inverse : ∀ a, decoder (encode a) = .ok a)
    (as : List α) : list decoder (ofList encode as) = .ok as :=
  mapM_encode fun a _ => inverse a

end Json

@[simp]
theorem InputKind.decode_encode (k : InputKind) : decode k.encode = .ok k := by
  have word (found : String) : decode (ofText found) = variantNamed words found := by
    rw [ofText, decode, variant, unescape?_escape]
  cases k with
  | input => exact word "input"
  | parameter => exact word "parameter"

@[simp]
theorem Input.decode_encode (i : Input) : decode i.encode = .ok i :=
  record_ofMembers (by simp)

@[simp]
theorem Output.decode_encode (o : Output) : decode o.encode = .ok o :=
  record_ofMembers (by simp)

@[simp]
theorem Node.decode_encode (n : Node) : decode n.encode = .ok n :=
  record_ofMembers (by simp)

/-- An empty target is not written, and read where there is none. -/
@[simp]
theorem NodeDef.decode_encode (d : NodeDef) : decode d.encode = .ok d := by
  refine record_ofMembers ?_
  by_cases noTarget : d.target = ""
  · have none : d.target.isEmpty := by simp [noTarget]
    simp [none, ← noTarget]
  · have given : d.target.isEmpty = false := by simpa using noTarget
    simp [given]

@[simp]
theorem NodeGraph.decode_encode (g : NodeGraph) : decode g.encode = .ok g :=
  record_ofMembers (by simp)

@[simp]
theorem ShaderRef.decode_encode (r : ShaderRef) : decode r.encode = .ok r :=
  record_ofMembers (by simp)

@[simp]
theorem Material.decode_encode (m : Material) : decode m.encode = .ok m :=
  record_ofMembers (by simp)

@[simp]
theorem MaterialAssign.decode_encode (a : MaterialAssign) : decode a.encode = .ok a :=
  record_ofMembers (by simp)

@[simp]
theorem Look.decode_encode (l : Look) : decode l.encode = .ok l :=
  record_ofMembers (by simp)

@[simp]
theorem GeomPropDef.decode_encode (g : GeomPropDef) : decode g.encode = .ok g :=
  record_ofMembers (by simp)

@[simp]
theorem TypeDef.decode_encode (t : TypeDef) : decode t.encode = .ok t :=
  record_ofMembers (by simp)

@[simp]
theorem Document.decode_encode (d : Document) : decode d.encode = .ok d :=
  record_ofMembers (by simp)

/-! ## The order of members -/

instance : InputKind.decode.Stable := inferInstanceAs (Decoder.Stable (variant _))

instance : Input.decode.Stable := by
  unfold Input.decode
  infer_instance

instance : Output.decode.Stable := by
  unfold Output.decode
  infer_instance

instance : Node.decode.Stable := by
  unfold Node.decode
  infer_instance

instance : NodeDef.decode.Stable := by
  unfold NodeDef.decode
  infer_instance

instance : NodeGraph.decode.Stable := by
  unfold NodeGraph.decode
  infer_instance

instance : ShaderRef.decode.Stable := by
  unfold ShaderRef.decode
  infer_instance

instance : Material.decode.Stable := by
  unfold Material.decode
  infer_instance

instance : MaterialAssign.decode.Stable := by
  unfold MaterialAssign.decode
  infer_instance

instance : Look.decode.Stable := by
  unfold Look.decode
  infer_instance

instance : GeomPropDef.decode.Stable := by
  unfold GeomPropDef.decode
  infer_instance

instance : TypeDef.decode.Stable := by
  unfold TypeDef.decode
  infer_instance

instance : Document.decode.Stable := by
  unfold Document.decode
  infer_instance

/-! ## Texts of documents -/

namespace Json

@[simp]
theorem lexed_ofText (s : String) : Lexed (ofText s) := .string (isText_escape s)

@[simp]
theorem lexed_bool (b : Bool) : Lexed (bool b) := .bool

@[simp]
theorem lexed_ofList {α : Type} {encode : α → Json} (lexed : ∀ a, Lexed (encode a)) (as : List α) :
    Lexed (ofList encode as) := by
  refine .array fun j mem => ?_
  obtain ⟨a, _, rfl⟩ := List.mem_map.1 mem
  exact lexed a

/-- The values of the members have their lexemes in order. -/
def ValuesLexed (members : List (String × Json)) : Prop := ∀ m ∈ members, Lexed m.2

@[simp]
theorem valuesLexed_nil : ValuesLexed [] := fun _ mem => absurd mem List.not_mem_nil

@[simp]
theorem valuesLexed_cons {name : String} {j : Json} {members : List (String × Json)} :
    ValuesLexed ((name, j) :: members) ↔ Lexed j ∧ ValuesLexed members :=
  List.forall_mem_cons

@[simp]
theorem valuesLexed_append {members members' : List (String × Json)} :
    ValuesLexed (members ++ members') ↔ ValuesLexed members ∧ ValuesLexed members' :=
  List.forall_mem_append

@[simp]
theorem valuesLexed_sparseText {name : String} {s : Option String} : ValuesLexed (sparseText name s) := by
  cases s <;> simp [sparseText]

theorem lexed_ofMembers {members : List (String × Json)} (lexed : ValuesLexed members) : Lexed (ofMembers members) := by
  refine .object (fun m mem => ?_) fun m mem => ?_
  · obtain ⟨m, _, rfl⟩ := List.mem_map.1 mem
    exact isText_escape m.1
  · obtain ⟨m', mem', rfl⟩ := List.mem_map.1 mem
    exact lexed m' mem'

theorem Lexed.reordered {j j' : Json} (lexed : Lexed j) (reorders : Reorders j j') : Lexed j' := by
  induction reorders with
  | members perm =>
      cases lexed with
      | object names values =>
          exact .object (fun m mem => names m (perm.mem_iff.2 mem)) fun m mem => values m (perm.mem_iff.2 mem)
  | item _ ih =>
      cases lexed with
      | array all =>
          rw [List.forall_mem_append, List.forall_mem_cons] at all
          obtain ⟨before, inside, after⟩ := all
          exact .array (List.forall_mem_append.2 ⟨before, List.forall_mem_cons.2 ⟨ih inside, after⟩⟩)
  | value _ ih =>
      cases lexed with
      | object names values =>
          rw [List.forall_mem_append, List.forall_mem_cons] at names values
          obtain ⟨before, inside, after⟩ := values
          exact .object (List.forall_mem_append.2 ⟨names.1, List.forall_mem_cons.2 names.2⟩)
            (List.forall_mem_append.2 ⟨before, List.forall_mem_cons.2 ⟨ih inside, after⟩⟩)

end Json

@[simp]
theorem InputKind.lexed_encode (k : InputKind) : Lexed k.encode := by
  cases k <;> exact lexed_ofText _

@[simp]
theorem Input.lexed_encode (i : Input) : Lexed i.encode :=
  lexed_ofMembers (by simp)

@[simp]
theorem Output.lexed_encode (o : Output) : Lexed o.encode :=
  lexed_ofMembers (by simp)

@[simp]
theorem Node.lexed_encode (n : Node) : Lexed n.encode :=
  lexed_ofMembers (by simp)

@[simp]
theorem NodeDef.lexed_encode (d : NodeDef) : Lexed d.encode :=
  lexed_ofMembers (by cases d.target.isEmpty <;> simp)

@[simp]
theorem NodeGraph.lexed_encode (g : NodeGraph) : Lexed g.encode :=
  lexed_ofMembers (by simp)

@[simp]
theorem ShaderRef.lexed_encode (r : ShaderRef) : Lexed r.encode :=
  lexed_ofMembers (by simp)

@[simp]
theorem Material.lexed_encode (m : Material) : Lexed m.encode :=
  lexed_ofMembers (by simp)

@[simp]
theorem MaterialAssign.lexed_encode (a : MaterialAssign) : Lexed a.encode :=
  lexed_ofMembers (by simp)

@[simp]
theorem Look.lexed_encode (l : Look) : Lexed l.encode :=
  lexed_ofMembers (by simp)

@[simp]
theorem GeomPropDef.lexed_encode (g : GeomPropDef) : Lexed g.encode :=
  lexed_ofMembers (by simp)

@[simp]
theorem TypeDef.lexed_encode (t : TypeDef) : Lexed t.encode :=
  lexed_ofMembers (by simp)

@[simp]
theorem Document.lexed_encode (d : Document) : Lexed d.encode :=
  lexed_ofMembers (by simp)

namespace Document

variable {s : String} {d : Document}

/-- A document is read from the texts of the trees that it is read from. -/
theorem parse_eq_ok_iff : parse s = .ok d ↔ ∃ j, Spells j s.toList ∧ decode j = .ok d := by
  unfold parse
  split
  · next j parsed =>
    rw [read, mapError_eq_ok_iff]
    rw [parse?_eq_some_iff] at parsed
    refine ⟨fun decoded => ⟨j, parsed, decoded⟩, fun ⟨j', spelled, decoded⟩ => ?_⟩
    rw [← parse?_eq_some_iff] at parsed spelled
    cases parsed.symm.trans spelled
    exact decoded
  · next unparsed =>
    refine ⟨fun read => (by cases read), fun ⟨j, spelled, _⟩ => ?_⟩
    rw [parse?_eq_some_iff.2 spelled] at unparsed
    cases unparsed

theorem decode_of_reordered {j j' : Json} (reordered : Relation.ReflTransGen Reorders j j') (read : decode j = .ok d) :
    decode j' = .ok d := by
  induction reordered with
  | refl => exact read
  | tail _ reorders ih => exact Decoder.Stable.reordered reorders ih

theorem lexed_of_reordered {j j' : Json} (reordered : Relation.ReflTransGen Reorders j j') (lexed : Lexed j) :
    Lexed j' := by
  induction reordered with
  | refl => exact lexed
  | tail _ reorders ih => exact ih.reordered reorders

/-- Every document is read back from its text. A text that is read as a document is the text of a tree, and every text
of every tree that differs from it in the order of the members of objects is read as the same document; there are such
texts. -/
theorem parse_render_and_reordered :
    (∀ d : Document, parse d.render = .ok d) ∧
    ∀ (s : String) (d : Document), parse s = .ok d → ∃ j, Spells j s.toList ∧
      ∀ j', Relation.ReflTransGen Reorders j j' →
        parse j'.render = .ok d ∧ ∀ s', Spells j' s'.toList → parse s' = .ok d := by
  refine ⟨fun d => parse_eq_ok_iff.2 ⟨d.encode, ?_, decode_encode d⟩, fun s d read => ?_⟩
  · exact parse?_eq_some_iff.1 (lexed_encode d).parse?_render
  · obtain ⟨j, spelled, decoded⟩ := parse_eq_ok_iff.1 read
    refine ⟨j, spelled, fun j' reordered => ?_⟩
    have decoded' : decode j' = .ok d := decode_of_reordered reordered decoded
    have lexed' : Lexed j' := lexed_of_reordered reordered spelled.lexed
    exact ⟨parse_eq_ok_iff.2 ⟨j', parse?_eq_some_iff.1 lexed'.parse?_render, decoded'⟩,
      fun s' spelled' => parse_eq_ok_iff.2 ⟨j', spelled', decoded'⟩⟩

/-- A document whose version stands before its name. -/
theorem parse_version_before_name :
    parse (Json.ofMembers [("version", .ofText "1.38"), ("name", .ofText "scene")]).render =
      .ok { name := "scene", version := "1.38" } := by
  have lexed : Lexed (Json.ofMembers [("name", .ofText "scene"), ("version", .ofText "1.38")]) :=
    lexed_ofMembers (by simp)
  have read : parse (Json.ofMembers [("name", .ofText "scene"), ("version", .ofText "1.38")]).render =
      .ok { name := "scene", version := "1.38" } :=
    parse_eq_ok_iff.2 ⟨_, parse?_eq_some_iff.1 lexed.parse?_render, record_ofMembers (by simp)⟩
  obtain ⟨j, spelled, reordered⟩ := parse_render_and_reordered.2 _ _ read
  cases (parse?_eq_some_iff.2 spelled).symm.trans lexed.parse?_render
  exact (reordered _ (.single (.members (.swap _ _ _)))).1

end Document

end MaterialGraph
