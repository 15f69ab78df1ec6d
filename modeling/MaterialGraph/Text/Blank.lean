/-!
# White space and separators

* `isBlank` is the Unicode property White_Space.
* `trim` removes blanks at both ends of a text.
* `splitOn` cuts a text at every occurrence of one character and keeps empty pieces.
-/

namespace MaterialGraph.Text

set_option autoImplicit false

/-- The characters with the Unicode property White_Space. -/
def isBlank (c : Char) : Bool :=
  let n := c.val
  (0x9 ≤ n && n ≤ 0xd) || n == 0x20 || n == 0x85 || n == 0xa0 || n == 0x1680 || (0x2000 ≤ n && n ≤ 0x200a) ||
    n == 0x2028 || n == 0x2029 || n == 0x202f || n == 0x205f || n == 0x3000

def trimChars (cs : List Char) : List Char :=
  (((cs.dropWhile isBlank).reverse).dropWhile isBlank).reverse

def trim (s : String) : String :=
  String.ofList (trimChars s.toList)

/-- The pieces between the occurrences of `sep`; there is one more piece than occurrences. -/
def splitChars (sep : Char) : List Char → List (List Char)
  | [] => [[]]
  | c :: cs =>
    if c = sep then [] :: splitChars sep cs
    else match splitChars sep cs with
      | [] => [[c]]
      | p :: ps => (c :: p) :: ps

/-- The pieces of a text between the occurrences of `sep`. -/
def splitOn (sep : Char) (s : String) : List String :=
  (splitChars sep s.toList).map String.ofList

theorem length_splitChars (sep : Char) : ∀ cs, (splitChars sep cs).length = cs.count sep + 1
  | [] => rfl
  | c :: cs => by
    have ih := length_splitChars sep cs
    by_cases h : c = sep
    · simp [splitChars, h, ih]
    · simp only [splitChars, h, if_false]
      cases hs : splitChars sep cs with
      | nil => simp [hs] at ih
      | cons p ps => simp [hs] at ih ⊢; simp [h, ih]

end MaterialGraph.Text
