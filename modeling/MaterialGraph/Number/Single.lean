import MaterialGraph.Number.Binary
import MaterialGraph.Number.Digits

/-!
# Single-precision numbers

A single-precision number is held by its 32 bits, so equality is equality of bits.

* `Single.ofInt` rounds an integer.
* `Single.read?` reads a decimal numeral, or the name of an infinity or of not-a-number, and rounds correctly.
-/

namespace MaterialGraph.Number

set_option autoImplicit false

/-- A single-precision number by its bits: sign, eight exponent bits, 23 fraction bits. -/
structure Single where
  bits : UInt32
deriving DecidableEq, Repr

namespace Single

/-- The number with a sign and the code of a magnitude. -/
def ofCode (negative : Bool) (code : Nat) : Single :=
  ⟨UInt32.ofNat (code + if negative then 0x80000000 else 0)⟩

def zero : Single := ⟨0⟩

def one : Single := ⟨0x3f800000⟩

def half : Single := ⟨0x3f000000⟩

/-- Not-a-number: the exponent field is full and the fraction is not empty. -/
def isNaN (x : Single) : Bool :=
  Format.single.infinity < x.bits.toNat % 0x80000000

def ofInt (n : Int) : Single :=
  ofCode (n < 0) (Format.single.round n.natAbs 1)

/-- The exponent after its mark: an optional sign and one digit or more. An exponent past 65535 takes no further
digits: the number is zero or infinite by then. -/
def readExponent? (cs : List Char) : Option Int :=
  let (negative, digits) := match cs with
    | '-' :: r => (true, r)
    | '+' :: r => (false, r)
    | r => (false, r)
  if !digits.isEmpty && digits.all Char.isDigit then
    let e := digits.foldl (fun n c => if n < 65536 then 10 * n + (c.toNat - '0'.toNat) else n) 0
    some (if negative then -(e : Int) else e)
  else none

/-- The code of an unsigned decimal numeral: digits with at most one point among or beside them, then an optional
exponent. -/
def readNumeral? (cs : List Char) : Option Nat :=
  let whole := cs.takeWhile Char.isDigit
  let (fraction, rest) := match cs.dropWhile Char.isDigit with
    | '.' :: r => (r.takeWhile Char.isDigit, r.dropWhile Char.isDigit)
    | r => ([], r)
  if whole.isEmpty && fraction.isEmpty then none
  else
    let exponent := match rest with
      | [] => some 0
      | e :: r => if e = 'e' ∨ e = 'E' then readExponent? r else none
    exponent.map fun e => Format.single.ofDecimal (ofDigits (whole ++ fraction)) (e - fraction.length)

def readName? (cs : List Char) : Option Nat :=
  let word := cs.map Char.toLower
  if word = "inf".toList ∨ word = "infinity".toList then some Format.single.infinity
  else if word = "nan".toList then some (Format.single.infinity + 0x400000)
  else none

/-- Reads a number: an optional sign, then a numeral or a name. -/
def read? (s : String) : Option Single :=
  let (negative, cs) := match s.toList with
    | '-' :: r => (true, r)
    | '+' :: r => (false, r)
    | r => (false, r)
  ((readNumeral? cs).or (readName? cs)).map (ofCode negative)

end Single

/-- Four single-precision numbers, the form in which a renderer takes every float input. -/
structure Float4 where
  x : Single
  y : Single
  z : Single
  w : Single
deriving DecidableEq, Repr

end MaterialGraph.Number
