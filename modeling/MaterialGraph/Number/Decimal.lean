import MaterialGraph.Number.Binary

/-!
# Shortest decimal text of a double

A finite double is written with the fewest digits that read back as the same double.

* `Double.shortest` chooses the digits: of several numbers of the fewest digits the nearest, of two that are equally
  near the one with the even last digit.
* `Layout.text` writes them, positionally or with an exponent, as the weight of the first digit says.
-/

namespace MaterialGraph.Number

set_option autoImplicit false

namespace Double

/-- The greatest `k` with `10 ^ k * den ≤ num`, for a quotient of at least one. -/
def exponentAbove (num den : Nat) : Int :=
  ((Nat.toDigits 10 (num / den)).length : Int) - 1

/-- The least `j ≤ fuel` with `den ≤ num * 10 ^ j`, for a quotient below one. -/
def exponentBelow (den : Nat) : Nat → Nat → Nat
  | 0, _ => 0
  | fuel + 1, num => if den ≤ num then 0 else exponentBelow den fuel (10 * num) + 1

/-- The decimal numbers `(digits, exponent)` with `n` digits on either side of `num / den`, whose leading digit has
the weight `10 ^ k`. -/
def neighbours (num den : Nat) (k : Int) (n : Nat) : List (Nat × Int) :=
  let exponent := k - n + 1
  let below := match exponent with
    | .ofNat e => num / (den * Nat.pow 10 e)
    | .negSucc e => num * Nat.pow 10 (e + 1) / den
  [(below, exponent), (below + 1, exponent)]

/-- The distance of a decimal number from `num / den`, times a positive factor that depends on the exponent only. -/
def distance (num den : Nat) : Nat × Int → Nat
  | (d, .ofNat e) => (d * Nat.pow 10 e * den - num) + (num - d * Nat.pow 10 e * den)
  | (d, .negSucc e) => (d * den - num * Nat.pow 10 (e + 1)) + (num * Nat.pow 10 (e + 1) - d * den)

/-- The nearer of two neighbours; if they are equally near, the even one. -/
def nearer (num den : Nat) (below above : Nat × Int) : Nat × Int :=
  let d := distance num den below
  let d' := distance num den above
  if d' < d ∨ (d' = d ∧ below.1 % 2 = 1) then above else below

/-- The shortest decimal number that rounds to `code`, and among those of its length the nearest. -/
def shortest (code : Nat) : Nat × Int :=
  let num := Format.double.units code
  let den := 1 <<< Format.double.scale
  let k := if den ≤ num then exponentAbove num den else -(exponentBelow den 400 num : Int)
  let candidates := (List.range 17).filterMap fun i =>
    let hits := (neighbours num den k (i + 1)).filter fun (d, e) => Format.double.ofDecimal d e = code
    match hits with
    | [below, above] => some (nearer num den below above)
    | a :: _ => some a
    | [] => none
  candidates.headD (0, 0)

def significant (digits : List Char) : List Char :=
  (digits.reverse.dropWhile (· = '0')).reverse

/-- Digits with a point `places` from the right, without superfluous zeros behind the point. -/
def positional (digits : List Char) (places : Nat) : String :=
  let padded := List.replicate (places + 1 - digits.length) '0' ++ digits
  let whole := padded.take (padded.length - places)
  let fraction := significant (padded.drop (padded.length - places))
  String.ofList (whole ++ '.' :: (if fraction.isEmpty then ['0'] else fraction))

/-- Significant digits with a point behind the first, if there are others, and the exponent of the weight of the first,
which always has a sign. -/
def scientific (digits : List Char) (weight : Int) : String :=
  let mantissa := match significant digits with
    | first :: second :: others => first :: '.' :: second :: others
    | few => few
  let sign := if weight < 0 then '-' else '+'
  String.ofList (mantissa ++ 'e' :: sign :: Nat.toDigits 10 weight.natAbs)

end Double

/-- Which numbers are written positionally: those whose first digit has a weight from one power of ten to another. -/
structure Layout where
  least : Int
  greatest : Int
deriving DecidableEq, Repr

namespace Layout

/-- The text of a magnitude by its code. A whole number that is written positionally keeps one zero behind the
point. -/
def magnitude (layout : Layout) (code : Nat) : String :=
  if code = 0 then "0.0"
  else
    let (d, exponent) := Double.shortest code
    let digits := Nat.toDigits 10 d
    let weight := exponent + digits.length - 1
    if weight < layout.least ∨ layout.greatest < weight then Double.scientific digits weight
    else match exponent with
      | .ofNat e => Double.positional (digits ++ List.replicate e '0') 0
      | .negSucc e => Double.positional digits (e + 1)

def text (layout : Layout) (negative : Bool) (code : Nat) : String :=
  (if negative then "-" else "") ++ layout.magnitude code

end Layout

end MaterialGraph.Number
