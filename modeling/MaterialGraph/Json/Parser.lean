import MaterialGraph.Json.Text
import MaterialGraph.Json.Number

/-!
# Reading JSON texts

`Json.parse?` reads a text as a tree of lexemes: one value, with blanks around every token. Lexemes obey the grammar
(no raw control characters in strings, known escapes only, no leading zeros in numbers), but need not stand for
anything. `Json.isSound` asks that too, and bounds the nesting.
-/

namespace MaterialGraph.Json

set_option autoImplicit false

/-- The four blanks that may stand between tokens. -/
def isSpace (c : Char) : Bool :=
  c = ' ' || c = '\n' || c = '\r' || c = '\t'

def skipSpace (cs : List Char) : List Char := cs.dropWhile isSpace

/-- The rest of a string after its opening quote: the lexeme, reversed onto `acc`, and what follows the closing
quote. -/
def scanString (acc : List Char) : List Char → Option (List Char × List Char)
  | [] => none
  | '"' :: rest => some (acc.reverse, rest)
  | '\\' :: 'u' :: a :: b :: c :: d :: rest =>
    if (hexUnit? a b c d).isSome then scanString (d :: c :: b :: a :: 'u' :: '\\' :: acc) rest else none
  | '\\' :: c :: rest => if (unescapeChar? c).isSome then scanString (c :: '\\' :: acc) rest else none
  | c :: rest => if c.toNat < 0x20 ∨ c = '\\' then none else scanString (c :: acc) rest

def scanDigits (cs : List Char) : Option (List Char × List Char) :=
  let digits := cs.takeWhile Char.isDigit
  if digits.isEmpty then none else some (digits, cs.dropWhile Char.isDigit)

/-- The digits before the point: a single zero, or digits that do not begin with zero. -/
def scanWhole (cs : List Char) : Option (List Char × List Char) := do
  let (digits, rest) ← scanDigits cs
  if digits.head? = some '0' ∧ 1 < digits.length then none else some (digits, rest)

/-- The point and the digits behind it, if there is a point. -/
def scanFraction : List Char → Option (List Char × List Char)
  | '.' :: cs => do
    let (digits, rest) ← scanDigits cs
    return ('.' :: digits, rest)
  | cs => some ([], cs)

def scanExponent : List Char → Option (List Char × List Char)
  | [] => some ([], [])
  | e :: cs =>
    if e = 'e' ∨ e = 'E' then
      match cs with
      | '+' :: cs => do
        let (digits, rest) ← scanDigits cs
        return (e :: '+' :: digits, rest)
      | '-' :: cs => do
        let (digits, rest) ← scanDigits cs
        return (e :: '-' :: digits, rest)
      | cs => do
        let (digits, rest) ← scanDigits cs
        return (e :: digits, rest)
    else some ([], e :: cs)

def scanUnsigned (cs : List Char) : Option (List Char × List Char) := do
  let (whole, rest) ← scanWhole cs
  let (fraction, rest) ← scanFraction rest
  let (exponent, rest) ← scanExponent rest
  return (whole ++ fraction ++ exponent, rest)

def scanNumber : List Char → Option (List Char × List Char)
  | '-' :: cs => do
    let (lexeme, rest) ← scanUnsigned cs
    return ('-' :: lexeme, rest)
  | cs => scanUnsigned cs

mutual

def parseValue : Nat → List Char → Option (Json × List Char)
  | 0, _ => none
  | fuel + 1, cs =>
    match skipSpace cs with
    | 'n' :: 'u' :: 'l' :: 'l' :: rest => some (null, rest)
    | 't' :: 'r' :: 'u' :: 'e' :: rest => some (bool true, rest)
    | 'f' :: 'a' :: 'l' :: 's' :: 'e' :: rest => some (bool false, rest)
    | '"' :: rest => (scanString [] rest).map fun (lexeme, rest) => (string lexeme, rest)
    | '[' :: rest =>
      match skipSpace rest with
      | ']' :: rest => some (array [], rest)
      | rest => (parseItems fuel rest).map fun (items, rest) => (array items, rest)
    | '\x7b' :: rest =>
      match skipSpace rest with
      | '\x7d' :: rest => some (object [], rest)
      | rest => (parseMembers fuel rest).map fun (members, rest) => (object members, rest)
    | rest => (scanNumber rest).map fun (lexeme, rest) => (number lexeme, rest)

/-- The items of an array up to its closing bracket. -/
def parseItems : Nat → List Char → Option (List Json × List Char)
  | 0, _ => none
  | fuel + 1, cs => do
    let (item, rest) ← parseValue fuel cs
    match skipSpace rest with
    | ',' :: rest =>
      let (items, rest) ← parseItems fuel rest
      return (item :: items, rest)
    | ']' :: rest => return ([item], rest)
    | _ => none

/-- The members of an object up to its closing brace. -/
def parseMembers : Nat → List Char → Option (List (List Char × Json) × List Char)
  | 0, _ => none
  | fuel + 1, cs => do
    let (name, rest) ← match skipSpace cs with
      | '"' :: rest => scanString [] rest
      | _ => none
    let rest ← match skipSpace rest with
      | ':' :: rest => some rest
      | _ => none
    let (value, rest) ← parseValue fuel rest
    match skipSpace rest with
    | ',' :: rest =>
      let (members, rest) ← parseMembers fuel rest
      return ((name, value) :: members, rest)
    | '\x7d' :: rest => return ([(name, value)], rest)
    | _ => none

end

/-- The tree of a text. Every value and every bracket takes a character, so twice the length is fuel enough. -/
def parse? (s : String) : Option Json :=
  let cs := s.toList
  match parseValue (2 * cs.length + 2) cs with
  | some (j, rest) => if (skipSpace rest).isEmpty then some j else none
  | none => none

mutual

/-- Every lexeme stands for something, and at most `depth` brackets are open at a time. -/
def soundAt (depth : Nat) : Json → Bool
  | null => true
  | bool _ => true
  | number lexeme => (Numeral.read? lexeme).isSome
  | string lexeme => (unescape? lexeme).isSome
  | array items => depth != 0 && soundItems (depth - 1) items
  | object members => depth != 0 && soundMembers (depth - 1) members

def soundItems (depth : Nat) : List Json → Bool
  | [] => true
  | item :: items => soundAt depth item && soundItems depth items

def soundMembers (depth : Nat) : List (List Char × Json) → Bool
  | [] => true
  | (name, value) :: members => (unescape? name).isSome && soundAt depth value && soundMembers depth members

end

/-- Every lexeme stands for something, and at most 127 brackets are open at a time. -/
def isSound (j : Json) : Bool := soundAt 127 j

end MaterialGraph.Json
