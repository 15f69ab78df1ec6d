import Mathlib.Data.List.Forall2
import Mathlib.Logic.Relation
import MaterialGraph.Json.Record
import MaterialGraph.Proofs.Json.Lexemes

/-!
# Records and the order of their members

What a record reads depends on the values of each name, not on where its members stand.

* `Reorders` : the members of one object in a tree stand in another order.
* `Fields.toOption_field` : a field reads the values of its name.
* `Decoder.Stable`, `Fields.Stable` : what is read stays the same when members are reordered.
* `Decoder.Lawful` : what is written is read back.
-/

namespace MaterialGraph.Json

set_option autoImplicit false

/-! ## Reordered members -/

/-- The members of one object in the tree stand in another order. -/
inductive Reorders : Json → Json → Prop
  | members {ms ms' : List (List Char × Json)} (perm : ms.Perm ms') : Reorders (object ms) (object ms')
  | item {before after : List Json} {j j' : Json} (inside : Reorders j j') :
      Reorders (array (before ++ j :: after)) (array (before ++ j' :: after))
  | value {before after : List (List Char × Json)} {name : List Char} {j j' : Json} (inside : Reorders j j') :
      Reorders (object (before ++ (name, j) :: after)) (object (before ++ (name, j') :: after))

/-- The same tree, or a tree with one object reordered. -/
abbrev Reorders? : Json → Json → Prop := Relation.ReflGen Reorders

variable {α β : Type} {name : String} {ms ms' : Members} {default : Option α} {decoder : Decoder α}

def valuesOf (name : String) (ms : Members) : List Json :=
  (ms.filter fun m => m.1 = some name).map (·.2)

/-- The members name the same fields, and a field that is named once has the same value up to a reordering. -/
structure Alike (ms ms' : Members) : Prop where
  names : (∀ m ∈ ms, m.1.isSome) → ∀ m ∈ ms', m.1.isSome
  absent : ∀ name, valuesOf name ms = [] → valuesOf name ms' = []
  single : ∀ name j, valuesOf name ms = [j] → ∃ j', valuesOf name ms' = [j'] ∧ Reorders? j j'

theorem Alike.of_perm (perm : ms.Perm ms') : Alike ms ms' where
  names all m mem := all m (perm.mem_iff.2 mem)
  absent name none := by
    have values : (valuesOf name ms).Perm (valuesOf name ms') := (perm.filter _).map _
    rwa [none, List.nil_perm] at values
  single name j one := by
    have values : (valuesOf name ms).Perm (valuesOf name ms') := (perm.filter _).map _
    rw [one, List.singleton_perm] at values
    exact ⟨j, values.symm, .refl⟩

theorem Alike.of_value {before after : Members} {n : Option String} {j j' : Json} (inside : Reorders j j') :
    Alike (before ++ (n, j) :: after) (before ++ (n, j') :: after) := by
  have values (name : String) (j : Json) : valuesOf name (before ++ (n, j) :: after) =
      valuesOf name before ++ ((if n = some name then [j] else []) ++ valuesOf name after) := by
    by_cases same : n = some name <;> simp [valuesOf, same]
  refine ⟨fun all m mem => ?_, fun name none => ?_, fun name x one => ?_⟩
  · rcases List.mem_append.1 mem with mem | mem
    · exact all m (List.mem_append_left _ mem)
    · rcases List.mem_cons.1 mem with rfl | mem
      · exact all (n, j) (by simp)
      · exact all m (by simp [mem])
  · rw [values] at none ⊢
    by_cases same : n = some name
    · simp [same] at none
    · simpa [same] using none
  · rw [values] at one ⊢
    by_cases same : n = some name
    · rw [if_pos same] at one ⊢
      obtain ⟨none, only⟩ | ⟨_, none⟩ := List.append_eq_singleton_iff.1 one
      · obtain ⟨rfl, later⟩ := List.cons.inj only
        have later : valuesOf name after = [] := later
        exact ⟨j', by simp [none, later], .single inside⟩
      · cases none
    · rw [if_neg same] at one ⊢
      exact ⟨x, one, .refl⟩

/-- The members of an object with the names that they stand for. -/
def namedMembers (members : List (List Char × Json)) : Members :=
  members.map fun m => (unescape? m.1, m.2)

theorem Reorders.object_inv {members : List (List Char × Json)} {j : Json} (reorders : Reorders (object members) j) :
    ∃ members', j = object members' ∧ Alike (namedMembers members) (namedMembers members') := by
  cases reorders with
  | members perm => exact ⟨_, rfl, .of_perm (perm.map _)⟩
  | value inside =>
      refine ⟨_, rfl, ?_⟩
      simp only [namedMembers, List.map_append, List.map_cons]
      exact .of_value inside

theorem Reorders.array_inv {items : List Json} {j : Json} (reorders : Reorders (array items) j) :
    ∃ items', j = array items' ∧ items.Forall₂ Reorders? items' := by
  cases reorders with
  | item inside => exact ⟨_, rfl, List.rel_append (List.forall₂_refl _) (.cons (.single inside) (List.forall₂_refl _))⟩

/-! ## What a record reads -/

/-- What a field reads from the values of its name. -/
def ofValues (default : Option α) (decoder : Decoder α) : List Json → Option α
  | [] => default
  | [j] => (decoder j).toOption
  | _ => none

theorem toOption_eq_some_iff {ε : Type} {x : Except ε α} {a : α} : x.toOption = some a ↔ x = .ok a := by
  cases x with
  | error e => simp [Except.toOption]
  | ok b => simp [Except.toOption]

@[simp]
theorem toOption_ok {ε : Type} {a : α} : (Except.ok a : Except ε α).toOption = some a := rfl

theorem mapError_eq_ok_iff {ε ε' : Type} {f : ε → ε'} {x : Except ε α} {a : α} : x.mapError f = .ok a ↔ x = .ok a := by
  cases x <;> simp [Except.mapError]

theorem both_eq_ok_iff {γ : Type} {f : α → β → γ} {x : Except Placed α} {y : Except Placed β} {c : γ} :
    both f x y = .ok c ↔ ∃ a b, x = .ok a ∧ y = .ok b ∧ f a b = c := by
  cases x <;> cases y <;> simp [both]

theorem toOption_both {γ : Type} {f : α → β → γ} {x : Except Placed α} {y : Except Placed β} :
    (both f x y).toOption = x.toOption.bind fun a => y.toOption.map (f a) := by
  cases x with
  | error e => cases y <;> rfl
  | ok a => cases y <;> rfl

theorem valuesOf_dropWhile : valuesOf name (ms.dropWhile fun m => m.1 ≠ some name) = valuesOf name ms := by
  induction ms with
  | nil => rfl
  | cons m ms ih =>
      by_cases same : m.1 = some name
      · rw [List.dropWhile_cons_of_neg (by simp [same])]
      · rw [List.dropWhile_cons_of_pos (by simp [same]), ih]
        simp [valuesOf, same]

theorem place?_eq_none_iff : place? name ms = none ↔ valuesOf name ms = [] := by
  simp [place?, valuesOf]

/-- A field reads the values of its name. -/
theorem Fields.toOption_field :
    ((field name default decoder).ofMembers ms).toOption = ofValues default decoder (valuesOf name ms) := by
  rw [← valuesOf_dropWhile]
  unfold field
  dsimp only
  split
  · next gone =>
    rw [gone]
    cases default with
    | none => rfl
    | some a => rfl
  · next n j later found =>
    have first : n = some name := by
      have head := List.head?_dropWhile_not (fun m : Option String × Json => decide (m.1 ≠ some name)) ms
      rw [found] at head
      simpa using head
    have values : valuesOf name ((n, j) :: later) = j :: valuesOf name later := by simp [valuesOf, first]
    rw [found, values]
    cases again : valuesOf name later with
    | nil =>
        rw [place?_eq_none_iff.2 again]
        change _ = (decoder j).toOption
        cases decoder j <;> rfl
    | cons j' rest =>
        have twice : place? name later ≠ none := by rw [Ne, place?_eq_none_iff, again]; exact List.cons_ne_nil _ _
        obtain ⟨i, place⟩ := Option.ne_none_iff_exists'.1 twice
        rw [place]
        cases decoder j <;> rfl

@[simp]
theorem Fields.toOption_required :
    ((required name decoder).ofMembers ms).toOption = ofValues none decoder (valuesOf name ms) :=
  toOption_field

@[simp]
theorem Fields.toOption_defaulted {a : α} :
    ((defaulted name a decoder).ofMembers ms).toOption = ofValues (some a) decoder (valuesOf name ms) :=
  toOption_field

@[simp]
theorem Fields.toOption_sparse :
    ((sparse name decoder).ofMembers ms).toOption = ofValues (some none) (optional decoder) (valuesOf name ms) :=
  toOption_field

variable {members : List (List Char × Json)} {fields : Fields α} {f : Fields (α → β)}

@[simp]
theorem Fields.toOption_seq : ((f <*> fields).ofMembers ms).toOption =
    (f.ofMembers ms).toOption.bind fun g => (fields.ofMembers ms).toOption.map g :=
  toOption_both

@[simp]
theorem Fields.toOption_map {g : α → β} :
    ((g <$> fields).ofMembers ms).toOption = (fields.ofMembers ms).toOption.map g :=
  toOption_both

theorem checkNames_eq_ok_iff {u : Unit} : checkNames ms = .ok u ↔ ∀ m ∈ ms, m.1.isSome := by
  have all : (∀ m ∈ ms, m.1.isSome) ↔ (ms.findIdx? fun m => m.1.isNone) = none := by simp
  rw [all, checkNames]
  split
  · next i found => simp [found]
  · next found => simp [found]

/-- A record is read from an object whose names all stand for something. -/
theorem record_object_eq_ok_iff {a : α} : record name fields (object members) = .ok a ↔
    (∀ m ∈ namedMembers members, m.1.isSome) ∧ fields.ofMembers (namedMembers members) = .ok a := by
  rw [record, mapError_eq_ok_iff, both_eq_ok_iff]
  simp [checkNames_eq_ok_iff, namedMembers]

/-- A record is read from an array that is not too long. -/
theorem record_array_eq_ok_iff {items : List Json} {a : α} : record name fields (array items) = .ok a ↔
    items.length ≤ fields.arity ∧ fields.ofItems 0 items = .ok a := by
  rw [record, mapError_eq_ok_iff, both_eq_ok_iff]
  by_cases long : fields.arity < items.length
  · rw [if_pos long]
    constructor
    · rintro ⟨_, _, _, ⟨⟩, _⟩
    · rintro ⟨short, -⟩
      exact absurd long (Nat.not_lt.2 short)
  · rw [if_neg long]
    simp [Nat.not_lt.1 long]

/-! ## Reading reordered trees -/

/-- What is read of a tree is read of the tree with one object reordered. -/
class Decoder.Stable (decoder : Decoder α) : Prop where
  reordered : ∀ {j j' : Json} {a : α}, Reorders j j' → decoder j = .ok a → decoder j' = .ok a

theorem Decoder.Stable.same_or_reordered [decoder.Stable] {j j' : Json} {a : α} (alike : Reorders? j j')
    (read : decoder j = .ok a) : decoder j' = .ok a := by
  cases alike with
  | refl => exact read
  | single reorders => exact reordered reorders read

/-- What the fields of a record are read of is the same up to the order of members. -/
class Fields.Stable (fields : Fields α) : Prop where
  members : ∀ {ms ms' : Members} {a : α}, Alike ms ms' → fields.ofMembers ms = .ok a → fields.ofMembers ms' = .ok a
  items : ∀ {start : Nat} {items items' : List Json} {a : α}, items.Forall₂ Reorders? items' →
    fields.ofItems start items = .ok a → fields.ofItems start items' = .ok a

instance : Decoder.Stable text where
  reordered reorders read := by cases reorders <;> cases read

instance : Decoder.Stable flag where
  reordered reorders read := by cases reorders <;> cases read

section

variable [decoder.Stable] [fields.Stable] [f.Stable]

instance : (f <*> fields).Stable where
  members alike read := by
    obtain ⟨g, a, readF, readA, rfl⟩ := both_eq_ok_iff.1 read
    exact both_eq_ok_iff.2 ⟨g, a, Fields.Stable.members alike readF, Fields.Stable.members alike readA, rfl⟩
  items alike read := by
    obtain ⟨g, a, readF, readA, rfl⟩ := both_eq_ok_iff.1 read
    exact both_eq_ok_iff.2 ⟨g, a, Fields.Stable.items alike readF, Fields.Stable.items alike readA, rfl⟩

instance {g : α → β} : (g <$> fields).Stable where
  members alike read := by
    obtain ⟨g, a, readF, readA, rfl⟩ := both_eq_ok_iff.1 read
    exact both_eq_ok_iff.2 ⟨g, a, readF, Fields.Stable.members alike readA, rfl⟩
  items alike read := by
    obtain ⟨g, a, readF, readA, rfl⟩ := both_eq_ok_iff.1 read
    exact both_eq_ok_iff.2 ⟨g, a, readF, Fields.Stable.items alike readA, rfl⟩

theorem ofValues_of_alike {a : α} (alike : Alike ms ms') (read : ofValues default decoder (valuesOf name ms) = some a) :
    ofValues default decoder (valuesOf name ms') = some a := by
  match values : valuesOf name ms with
  | [] => rwa [alike.absent name values, ← values]
  | [j] =>
      obtain ⟨j', values', same⟩ := alike.single name j values
      rw [values, ofValues, toOption_eq_some_iff] at read
      rw [values', ofValues, toOption_eq_some_iff]
      exact Decoder.Stable.same_or_reordered same read
  | j :: j' :: _ =>
      rw [values] at read
      cases read

theorem mapM_of_forall₂ {item : Decoder α} [item.Stable] {items items' : List Json} {as : List α}
    (alike : items.Forall₂ Reorders? items') (read : items.mapM item = .ok as) : items'.mapM item = .ok as := by
  induction alike generalizing as with
  | nil => exact read
  | @cons j j' items items' same _ ih =>
      rw [List.mapM_cons] at read ⊢
      cases first : item j with
      | error e =>
          rw [first] at read
          cases read
      | ok a =>
          cases others : items.mapM item with
          | error e =>
              rw [first, others] at read
              cases read
          | ok later =>
              rw [first, others] at read
              rw [Decoder.Stable.same_or_reordered same first, ih others]
              exact read

theorem rel_getElem?_of_forall₂ {R : α → β → Prop} {as : List α} {bs : List β} (related : as.Forall₂ R bs) (i : Nat) :
    Option.Rel R as[i]? bs[i]? := by
  induction related generalizing i with
  | nil => exact .none
  | cons first _ ih =>
      cases i with
      | zero => exact .some first
      | succ i => simpa using ih i

instance : (field name default decoder).Stable where
  members alike read := by
    rw [← toOption_eq_some_iff, Fields.toOption_field] at read ⊢
    exact ofValues_of_alike alike read
  items {start items items' a} alike read := by
    change (match items[start]?, default with
      | some j, _ => readAt start (decoder j)
      | none, some a => .ok a
      | none, none => .error (start, .malformed)) = Except.ok a at read
    change (match items'[start]?, default with
      | some j, _ => readAt start (decoder j)
      | none, some a => .ok a
      | none, none => .error (start, .malformed)) = Except.ok a
    have same := rel_getElem?_of_forall₂ alike start
    generalize items[start]? = j? at *
    generalize items'[start]? = j'? at *
    cases same with
    | none => exact read
    | some same => exact mapError_eq_ok_iff.2 (Decoder.Stable.same_or_reordered same (mapError_eq_ok_iff.1 read))

instance : (required name decoder).Stable := inferInstanceAs (field name none decoder).Stable

instance {a : α} : (defaulted name a decoder).Stable := inferInstanceAs (field name (some a) decoder).Stable

instance {item : Decoder α} [item.Stable] : (list item).Stable where
  reordered {j j' _} reorders read := by
    cases j with
    | array items =>
        obtain ⟨items', rfl, alike⟩ := reorders.array_inv
        exact mapM_of_forall₂ alike read
    | _ => cases read

instance : (optional decoder).Stable where
  reordered {j j' a} reorders read := by
    have given : optional decoder j = (decoder j).map some ∧ optional decoder j' = (decoder j').map some := by
      cases reorders <;> exact ⟨rfl, rfl⟩
    rw [given.1] at read
    rw [given.2]
    cases value : decoder j with
    | error e =>
        rw [value] at read
        cases read
    | ok b =>
        rw [value] at read
        rwa [Decoder.Stable.reordered reorders value]

instance : (sparse name decoder).Stable := inferInstanceAs (field name (some none) (optional decoder)).Stable

instance : (record name fields).Stable where
  reordered {j j' a} reorders read := by
    cases j with
    | object members =>
        obtain ⟨members', rfl, alike⟩ := reorders.object_inv
        obtain ⟨named, read⟩ := record_object_eq_ok_iff.1 read
        exact record_object_eq_ok_iff.2 ⟨alike.names named, Fields.Stable.members alike read⟩
    | array items =>
        obtain ⟨items', rfl, alike⟩ := reorders.array_inv
        obtain ⟨short, read⟩ := record_array_eq_ok_iff.1 read
        exact record_array_eq_ok_iff.2 ⟨alike.length_eq ▸ short, Fields.Stable.items alike read⟩
    | _ => cases reorders

end

/-- The object of a word has a single member, which is `null`. -/
theorem single_of_variant_object {known : List (String × α)} {members : List (List Char × Json)} {a : α}
    (read : variant known (object members) = .ok a) : ∃ name, members = [(name, .null)] := by
  obtain _ | ⟨⟨name, content⟩, others⟩ := members
  · cases read
  · rw [variant] at read
    split at read
    · cases read
    · next found _ =>
      cases value : variantNamed known found with
      | error e =>
          rw [value] at read
          cases read
      | ok b =>
          rw [value] at read
          cases content with
          | null =>
              cases others with
              | nil => exact ⟨name, rfl⟩
              | cons => cases read
          | _ => cases read

instance {known : List (String × α)} : (variant known).Stable where
  reordered {j j' a} reorders read := by
    cases reorders with
    | @members ms ms' perm =>
        obtain ⟨name, rfl⟩ := single_of_variant_object read
        rwa [List.singleton_perm.1 perm] at read
    | @value before after name j j' inside =>
        obtain ⟨name, single⟩ := single_of_variant_object read
        obtain ⟨_, only⟩ | ⟨_, none⟩ := List.append_eq_singleton_iff.1 single
        · cases only
          cases inside
        · cases none
    | item => cases read

/-! ## Reading what has been written -/

@[simp]
theorem text_ofText (s : String) : text (ofText s) = .ok s := by
  rw [ofText, text, unescape?_escape]

@[simp]
theorem optional_ofText (s : String) : optional text (ofText s) = .ok (some s) := by
  change (text (ofText s)).map some = _
  rw [text_ofText]
  rfl

@[simp]
theorem flag_bool (b : Bool) : flag (bool b) = .ok b := rfl

theorem mapM_encode {encode : α → Json} {as : List α} (inverse : ∀ a ∈ as, decoder (encode a) = .ok a) :
    (as.map encode).mapM decoder = .ok as := by
  induction as with
  | nil => rfl
  | cons a as ih =>
      obtain ⟨first, others⟩ := List.forall_mem_cons.1 inverse
      rw [List.map_cons, List.mapM_cons, first, ih others]
      rfl

def given (name : String) (members : List (String × Json)) : List Json :=
  (members.filter fun m => m.1 = name).map (·.2)

@[simp]
theorem given_nil : given name [] = [] := rfl

@[simp]
theorem given_cons {n : String} {j : Json} {members : List (String × Json)} :
    given name ((n, j) :: members) = if n = name then j :: given name members else given name members := by
  by_cases same : n = name <;> simp [given, same]

@[simp]
theorem given_append {members members' : List (String × Json)} :
    given name (members ++ members') = given name members ++ given name members' := by
  simp [given]

/-- The members that are written, with their names. -/
def written (members : List (String × Json)) : Members :=
  members.map fun m => (some m.1, m.2)

@[simp]
theorem valuesOf_written {members : List (String × Json)} : valuesOf name (written members) = given name members := by
  simp [valuesOf, written, given, List.filter_map, Function.comp_def]

/-- A record reads the values that are written for its fields. -/
theorem record_ofMembers {members : List (String × Json)} {a : α}
    (read : (fields.ofMembers (written members)).toOption = some a) :
    record name fields (ofMembers members) = .ok a := by
  have named : namedMembers (members.map fun m => (escape m.1, m.2)) = written members := by
    simp [namedMembers, written, unescape?_escape]
  refine record_object_eq_ok_iff.2 ?_
  rw [named]
  refine ⟨fun m mem => ?_, toOption_eq_some_iff.1 read⟩
  obtain ⟨_, _, rfl⟩ := List.mem_map.1 mem
  rfl

@[simp]
theorem ofValues_nil : ofValues default decoder [] = default := rfl

@[simp]
theorem ofValues_single {j : Json} : ofValues default decoder [j] = (decoder j).toOption := rfl

end MaterialGraph.Json
