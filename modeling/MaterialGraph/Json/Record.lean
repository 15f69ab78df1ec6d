import MaterialGraph.Json.Parser
import MaterialGraph.Number.Decimal
import MaterialGraph.Text.Quoted

/-!
# Reading records from JSON

A decoder reads a value from a tree or says what is wrong with the tree. A record is read from an object with its
fields as members, in any order and among other members, or from an array with its fields in their order. Of several
faults the one that stands first in the text is reported; a missing member is noticed at the end of its object.

* `Fields` combines the fields of a record; `field` is a single one.
* `record` is the decoder of a record with a name.
-/

namespace MaterialGraph.Json

set_option autoImplicit false

/-- What is wrong with a tree. A malformed one has a token that stands for nothing, or a list of the wrong length. -/
inductive ReadError where
  | malformed
  | missingField (name : String)
  | duplicateField (name : String)
  | unknownVariant (found : String) (known : List String)
  | wrongType (found wanted : String)
deriving DecidableEq

def alternatives (known : List String) : String :=
  " or ".intercalate (known.map fun name => "`" ++ name ++ "`")

def ReadError.message? : ReadError → Option String
  | malformed => none
  | missingField name => some ("missing field `" ++ name ++ "`")
  | duplicateField name => some ("duplicate field `" ++ name ++ "`")
  | unknownVariant found known => some ("unknown variant `" ++ found ++ "`, expected " ++ alternatives known)
  | wrongType found wanted => some ("invalid type: " ++ found ++ ", expected " ++ wanted)

abbrev Decoder (α : Type) := Json → Except ReadError α

/-- Messages write a number positionally if its first digit stands for hundred-thousandths at least and for
quadrillions at most. -/
def layout : Number.Layout := ⟨-5, 15⟩

/-- How a message names a value of the wrong type; none if the value stands for nothing. -/
def found? : Json → Option String
  | null => some "null"
  | bool value => some ("boolean `" ++ toString value ++ "`")
  | number lexeme => (Numeral.read? lexeme).map fun
    | .integer n => "integer `" ++ toString n ++ "`"
    | .double negative code => "floating point `" ++ layout.text negative code ++ "`"
  | string lexeme => (unescape? lexeme).map fun s => "string " ++ Text.quoted s
  | array _ => some "sequence"
  | object _ => some "map"

/-- The fault of a value that is not of the wanted type. -/
def mismatch (wanted : String) (j : Json) : ReadError :=
  match j.found? with
  | some found => .wrongType found wanted
  | none => .malformed

def text : Decoder String
  | string lexeme =>
    match unescape? lexeme with
    | some s => .ok s
    | none => .error .malformed
  | j => .error (mismatch "a string" j)

def flag : Decoder Bool
  | bool value => .ok value
  | j => .error (mismatch "a boolean" j)

/-- Reads an array whose items are all of one type. -/
def list {α : Type} (item : Decoder α) : Decoder (List α)
  | array items => items.mapM item
  | j => .error (mismatch "a sequence" j)

def optional {α : Type} (value : Decoder α) : Decoder (Option α)
  | null => .ok none
  | j => (value j).map some

def pair {α : Type} (item : Decoder α) : Decoder (α × α)
  | array [a, b] => do
    let a ← item a
    let b ← item b
    return (a, b)
  | _ => .error .malformed

def variantNamed {α : Type} (known : List (String × α)) (found : String) : Except ReadError α :=
  match known.lookup found with
  | some value => .ok value
  | none => .error (.unknownVariant found (known.map (·.1)))

/-- Reads one word of an enumeration: a string, or an object whose only member has the word as its name and `null` as
its value. -/
def variant {α : Type} (known : List (String × α)) : Decoder α
  | string lexeme =>
    match unescape? lexeme with
    | some found => variantNamed known found
    | none => .error .malformed
  | object ((name, content) :: others) =>
    match unescape? name with
    | none => .error .malformed
    | some found => do
      let value ← variantNamed known found
      match content with
      | null => if others.isEmpty then return value else .error .malformed
      | j => .error (mismatch "unit" j)
  | _ => .error .malformed

/-! ## Fields -/

/-- A fault and its place among the members or items of a record. -/
abbrev Placed := Nat × ReadError

/-- The members of an object; the name is absent if its lexeme stands for nothing. -/
abbrev Members := List (Option String × Json)

/-- How to read some fields of a record, from the members of an object or from an array, the first at the given place. -/
structure Fields (α : Type) where
  arity : Nat
  ofMembers : Members → Except Placed α
  ofItems : Nat → List Json → Except Placed α

def both {α β γ : Type} (f : α → β → γ) : Except Placed α → Except Placed β → Except Placed γ
  | .ok a, .ok b => .ok (f a b)
  | .error e, .ok _ => .error e
  | .ok _, .error e => .error e
  | .error e, .error e' => .error (if e'.1 < e.1 then e' else e)

namespace Fields

def pure {α : Type} (a : α) : Fields α := ⟨0, fun _ => .ok a, fun _ _ => .ok a⟩

/-- The fields of a function and then those of its argument. -/
def seq {α β : Type} (f : Fields (α → β)) (x : Fields α) : Fields β where
  arity := f.arity + x.arity
  ofMembers ms := both (· ·) (f.ofMembers ms) (x.ofMembers ms)
  ofItems start items := both (· ·) (f.ofItems start items) (x.ofItems (start + f.arity) items)

instance : Applicative Fields where
  pure := pure
  seq f x := seq f (x ())

end Fields

def place? (name : String) (ms : Members) : Option Nat :=
  ms.findIdx? fun m => m.1 = some name

def readAt {α : Type} (place : Nat) (value : Except ReadError α) : Except Placed α :=
  value.mapError fun e => (place, e)

/-- A single field: its name, the value that stands for a missing one, and the decoder of its value. A second member
of the name is a fault at its place. -/
def field {α : Type} (name : String) (default : Option α) (decoder : Decoder α) : Fields α where
  arity := 1
  ofMembers ms :=
    match ms.dropWhile fun m => m.1 ≠ some name with
    | [] =>
      match default with
      | some a => .ok a
      | none => .error (ms.length, .missingField name)
    | (_, j) :: later =>
      let place := ms.length - later.length - 1
      match readAt place (decoder j), place? name later with
      | .ok _, some i => .error (place + 1 + i, .duplicateField name)
      | value, _ => value
  ofItems start items :=
    match items[start]?, default with
    | some j, _ => readAt start (decoder j)
    | none, some a => .ok a
    | none, none => .error (start, .malformed)

def required {α : Type} (name : String) (decoder : Decoder α) : Fields α :=
  field name none decoder

def defaulted {α : Type} (name : String) (default : α) (decoder : Decoder α) : Fields α :=
  field name (some default) decoder

def sparse {α : Type} (name : String) (decoder : Decoder α) : Fields (Option α) :=
  field name (some none) (optional decoder)

/-- A fault of the first member whose name stands for nothing. -/
def checkNames (ms : Members) : Except Placed Unit :=
  match ms.findIdx? fun m => m.1.isNone with
  | some i => .error (i, .malformed)
  | none => .ok ()

def record {α : Type} (name : String) (fields : Fields α) : Decoder α
  | object members =>
    let ms : Members := members.map fun m => (unescape? m.1, m.2)
    (both (fun _ a => a) (checkNames ms) (fields.ofMembers ms)).mapError (·.2)
  | array items =>
    let extra : Except Placed Unit :=
      if fields.arity < items.length then .error (fields.arity, .malformed) else .ok ()
    (both (fun a _ => a) (fields.ofItems 0 items) extra).mapError (·.2)
  | j => .error (mismatch ("struct " ++ name) j)

end MaterialGraph.Json
