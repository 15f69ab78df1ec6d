/-!
# Binary floating-point formats

A format is given by the number of its fraction bits and exponent bits. The magnitude of a number is its code, the
natural number whose binary form is the exponent field followed by the fraction field, so codes are ordered as the
numbers are.

* `Format.units` is the value of a code, counted in the least positive number of the format.
* `Format.round` is the code nearest to an exact quotient; a tie goes to the even code, and what is too large
  becomes infinity.
-/

namespace MaterialGraph.Number

set_option autoImplicit false

/-- The quotient rounded to the nearest natural number; a tie goes to the even neighbour. -/
def roundDiv (n d : Nat) : Nat :=
  let q := n / d
  let r := n % d
  if 2 * r < d then q else if d < 2 * r then q + 1 else q + q % 2

/-- A binary interchange format. -/
structure Format where
  fractionBits : Nat
  exponentBits : Nat

namespace Format

def single : Format := ⟨23, 8⟩

def double : Format := ⟨52, 11⟩

/-- The code of infinity: all exponent bits set and an empty fraction. -/
def infinity (F : Format) : Nat := ((1 <<< F.exponentBits) - 1) <<< F.fractionBits

/-- The least positive number of the format is `2 ^ -F.scale`. -/
def scale (F : Format) : Nat := (1 <<< (F.exponentBits - 1)) + F.fractionBits - 2

/-- The value of a finite code, counted in the least positive number of the format. -/
def units (F : Format) (code : Nat) : Nat :=
  let exponent := code >>> F.fractionBits
  let fraction := code % (1 <<< F.fractionBits)
  if exponent = 0 then fraction else ((1 <<< F.fractionBits) + fraction) <<< (exponent - 1)

/-- The code nearest to `num / den`. A quotient is rounded on the grid of its binade, whose spacing is the power of
two that leaves one bit more than the fraction holds. -/
def round (F : Format) (num den : Nat) : Nat :=
  let scaled := num <<< F.scale
  let shift := (scaled / den).log2 - F.fractionBits
  min F.infinity ((shift <<< F.fractionBits) + roundDiv scaled (den <<< shift))

/-- The code nearest to `mantissa * 10 ^ exponent`. -/
def ofDecimal (F : Format) (mantissa : Nat) : Int → Nat
  | .ofNat e => F.round (mantissa * Nat.pow 10 e) 1
  | .negSucc e => F.round mantissa (Nat.pow 10 (e + 1))

end Format

end MaterialGraph.Number
