/-!
# Decimal digits

Reading unsigned and signed integers from a text of decimal digits. Only the ten ASCII digits count.
-/

namespace MaterialGraph.Number

set_option autoImplicit false

def ofDigits (cs : List Char) : Nat :=
  cs.foldl (fun n c => 10 * n + (c.toNat - '0'.toNat)) 0

/-- A natural number: one digit or more and nothing else. -/
def readNat? (cs : List Char) : Option Nat :=
  if !cs.isEmpty && cs.all Char.isDigit then some (ofDigits cs) else none

/-- A natural number of 32 bits; a plus sign may come first. -/
def readWord? (s : String) : Option UInt32 :=
  let digits := match s.toList with
    | '+' :: cs => cs
    | cs => cs
  (readNat? digits).bind fun n => if n < UInt32.size then some (UInt32.ofNat n) else none

/-- A 32-bit signed integer; a sign may come first. -/
def readInt32? (s : String) : Option Int32 :=
  let value : Option Int := match s.toList with
    | '-' :: cs => (readNat? cs).map fun n => -(n : Int)
    | '+' :: cs => (readNat? cs).map Int.ofNat
    | cs => (readNat? cs).map Int.ofNat
  value.bind fun n => if Int32.minValue.toInt ≤ n ∧ n ≤ Int32.maxValue.toInt then some (Int32.ofInt n) else none

end MaterialGraph.Number
