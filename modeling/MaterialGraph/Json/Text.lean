import MaterialGraph.Json.Basic

/-!
# Text in JSON strings

* `Json.escape` writes a text as a lexeme.
* `Json.unescape` reads a lexeme. It fails on an escape that names half a surrogate pair.
* `Json.ofText` and `Json.text?` are the same for trees.
-/

namespace MaterialGraph.Json

set_option autoImplicit false

/-- The lower-case hexadecimal digit of a number below sixteen. -/
def hexDigit (n : Nat) : Char :=
  if n < 10 then Char.ofNat (n + '0'.toNat) else Char.ofNat (n - 10 + 'a'.toNat)

def hexValue? (c : Char) : Option Nat :=
  if c.isDigit then some (c.toNat - '0'.toNat)
  else if 'a' ≤ c ∧ c ≤ 'f' then some (c.toNat - 'a'.toNat + 10)
  else if 'A' ≤ c ∧ c ≤ 'F' then some (c.toNat - 'A'.toNat + 10)
  else none

def hexUnit? (a b c d : Char) : Option Nat := do
  let a ← hexValue? a
  let b ← hexValue? b
  let c ← hexValue? c
  let d ← hexValue? d
  return ((a * 16 + b) * 16 + c) * 16 + d

/-- One character of a text as it stands in a lexeme. -/
def escapeChar (c : Char) : List Char :=
  if c = '"' then ['\\', '"']
  else if c = '\\' then ['\\', '\\']
  else if c = '\n' then ['\\', 'n']
  else if c = '\r' then ['\\', 'r']
  else if c = '\t' then ['\\', 't']
  else if c = '\x08' then ['\\', 'b']
  else if c = '\x0c' then ['\\', 'f']
  else if c.toNat < 0x20 then ['\\', 'u', '0', '0', hexDigit (c.toNat / 16), hexDigit (c.toNat % 16)]
  else [c]

def escape (s : String) : List Char :=
  s.toList.flatMap escapeChar

/-- The character behind a backslash, other than the mark of a code unit. -/
def unescapeChar? : Char → Option Char
  | '"' => some '"'
  | '\\' => some '\\'
  | '/' => some '/'
  | 'b' => some '\x08'
  | 'f' => some '\x0c'
  | 'n' => some '\n'
  | 'r' => some '\r'
  | 't' => some '\t'
  | _ => none

/-- The characters that a lexeme stands for. A code unit of the upper half of a surrogate pair is followed by one of
the lower half, and the lower half never stands alone. -/
def unescapeChars? : List Char → Option (List Char)
  | [] => some []
  | '\\' :: 'u' :: a :: b :: c :: d :: '\\' :: 'u' :: a' :: b' :: c' :: d' :: rest => do
    let high ← hexUnit? a b c d
    if high < 0xd800 ∨ 0xe000 ≤ high then
      let tail ← unescapeChars? ('\\' :: 'u' :: a' :: b' :: c' :: d' :: rest)
      return Char.ofNat high :: tail
    else
      let low ← hexUnit? a' b' c' d'
      if high < 0xdc00 ∧ 0xdc00 ≤ low ∧ low < 0xe000 then
        let tail ← unescapeChars? rest
        return Char.ofNat (0x10000 + (high - 0xd800) * 0x400 + (low - 0xdc00)) :: tail
      else none
  | '\\' :: 'u' :: a :: b :: c :: d :: rest => do
    let unit ← hexUnit? a b c d
    if unit < 0xd800 ∨ 0xe000 ≤ unit then
      let tail ← unescapeChars? rest
      return Char.ofNat unit :: tail
    else none
  | '\\' :: c :: rest => do
    let c ← unescapeChar? c
    let tail ← unescapeChars? rest
    return c :: tail
  | '\\' :: [] => none
  | c :: rest => do
    let tail ← unescapeChars? rest
    return c :: tail

def unescape? (lexeme : List Char) : Option String :=
  (unescapeChars? lexeme).map String.ofList

def ofText (s : String) : Json := string (escape s)

def text? : Json → Option String
  | string lexeme => unescape? lexeme
  | _ => none

def ofMembers (members : List (String × Json)) : Json :=
  object (members.map fun (name, value) => (escape name, value))

def member? (name : String) : Json → Option Json
  | object members => (members.find? fun m => unescape? m.1 = some name).map (·.2)
  | _ => none

end MaterialGraph.Json
