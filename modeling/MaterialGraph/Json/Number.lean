import MaterialGraph.Json.Basic
import MaterialGraph.Number.Binary
import MaterialGraph.Number.Digits

/-!
# Numbers in JSON

A numeral without point and exponent is an integer if it fits 64 bits (with a sign, the signed 64 bits) and is not a
negative zero. All other numerals are doubles: the leading digits that fit 64 bits are rounded to a double, which is
then multiplied or divided by the double nearest to the power of ten, so two roundings may happen.
-/

namespace MaterialGraph.Json

open Number (Format ofDigits)

set_option autoImplicit false

/-- What a numeral stands for. -/
inductive Numeral where
  | integer (value : Int)
  | double (negative : Bool) (code : Nat)
deriving DecidableEq

namespace Numeral

def limit : Nat := UInt64.size - 1

/-- The leading digits as long as the significand stays within the limit, and how many digits are left over. -/
def significand : Nat → List Char → Nat × Nat
  | m, [] => (m, 0)
  | m, c :: cs =>
    let next := 10 * m + (c.toNat - '0'.toNat)
    if next ≤ limit then significand next cs else (m, cs.length + 1)

def power (e : Nat) : Nat := Format.double.round (Nat.pow 10 e) 1

def product (a b : Nat) : Nat :=
  Format.double.round (Format.double.units a * Format.double.units b) (1 <<< (2 * Format.double.scale))

def quotient (a b : Nat) : Nat :=
  Format.double.round (Format.double.units a) (Format.double.units b)

/-- A double divided by ten to a power, in steps of 308. Four steps lead every significand to zero. -/
def divided : Nat → Nat → Nat → Nat
  | 0, _, _ => 0
  | fuel + 1, code, e =>
    if e ≤ 308 then quotient code (power e) else if code = 0 then 0
    else divided fuel (quotient code (power 308)) (e - 308)

/-- The double of a significand and a power of ten, unless it is too large. -/
def scaled (m : Nat) (e : Int) : Option Nat :=
  let code := Format.double.round m 1
  match e with
  | .ofNat e =>
    if e ≤ 308 then
      let result := product code (power e)
      if result < Format.double.infinity then some result else none
    else if m = 0 then some 0 else none
  | .negSucc e => some (divided 4 code (e + 1))

/-- Brings an exponent into the range of 32 bits with a sign. -/
def clamp (e : Int) : Int := max Int32.minValue.toInt (min Int32.maxValue.toInt e)

/-- The double of an unsigned numeral with a point or an exponent, or with too many digits for an integer. -/
def double? (whole fraction : List Char) (exponent : Option (Bool × List Char)) : Option Nat :=
  let (m, dropped) := significand 0 whole
  let (m, ignored) := significand m fraction
  let start : Int := dropped - (fraction.length - ignored : Nat)
  match exponent with
  | none => scaled m start
  | some (negative, digits) =>
    let e := ofDigits digits
    if (e : Int) ≤ Int32.maxValue.toInt then scaled m (clamp (if negative then start - e else start + e))
    else if m ≠ 0 ∧ !negative then none else some 0

/-- The parts of a numeral: sign, digits before the point, digits behind it, sign and digits of the exponent. -/
def parts (lexeme : List Char) : Bool × List Char × List Char × Option (Bool × List Char) :=
  let (negative, cs) := match lexeme with
    | '-' :: r => (true, r)
    | r => (false, r)
  let whole := cs.takeWhile Char.isDigit
  let (fraction, rest) := match cs.dropWhile Char.isDigit with
    | '.' :: r => (r.takeWhile Char.isDigit, r.dropWhile Char.isDigit)
    | r => ([], r)
  let exponent := match rest with
    | _ :: '-' :: r => some (true, r)
    | _ :: '+' :: r => some (false, r)
    | _ :: r => some (false, r)
    | [] => none
  (negative, whole, fraction, exponent)

/-- Reads a numeral; none if it is too large for a double. -/
def read? (lexeme : List Char) : Option Numeral :=
  let (negative, whole, fraction, exponent) := parts lexeme
  let n := ofDigits whole
  let fits := if negative then 0 < n && Int64.minValue.toInt ≤ -(n : Int) else n ≤ limit
  if fraction.isEmpty && exponent.isNone && fits then
    some (.integer (if negative then -(n : Int) else n))
  else (double? whole fraction exponent).map (.double negative)

end Numeral

def ofInt (n : Int) : Json :=
  match n with
  | .ofNat n => number (Nat.toDigits 10 n)
  | .negSucc n => number ('-' :: Nat.toDigits 10 (n + 1))

def ofNat (n : Nat) : Json := number (Nat.toDigits 10 n)

def int? : Json → Option Int
  | number lexeme =>
    match Numeral.read? lexeme with
    | some (.integer n) => some n
    | _ => none
  | _ => none

end MaterialGraph.Json
