import PhpDecl.Decimal.Shortest

/-!
# Double-precision numbers

A double is kept as its 64 bits. This module reads the bits, and writes the number in decimal
notation: without an exponent when the first digit stands for a power of ten from -4 to 15,
with one otherwise, and always as the shortest decimal that reads back. NaNs are written alike,
but their payloads tell them apart.
-/

namespace PhpDecl

/-- A double-precision number, as its bits. -/
structure Double where
  bits : UInt64
  deriving DecidableEq, Repr

namespace Double

open Decimal

inductive Meaning
  | nan
  | infinite (negative : Bool)
  | zero (negative : Bool)
  /-- A finite number other than zero. -/
  | finite (negative : Bool) (magnitude : BinaryFraction)

/-- Read the bits: a sign, eleven bits of exponent, and fifty-two of mantissa. -/
def meaning (x : Double) : Meaning :=
  let n := x.bits.toNat
  let negative := n / Nat.pow 2 63 == 1
  let exponent := n / Nat.pow 2 52 % Nat.pow 2 11
  let fraction := n % Nat.pow 2 52
  if exponent == Nat.pow 2 11 - 1 then
    if fraction == 0 then .infinite negative else .nan
  else if exponent == 0 then
    -- Below the normal numbers the mantissa has no leading bit of its own.
    if fraction == 0 then .zero negative else .finite negative ⟨fraction, -1074, false⟩
  else
    .finite negative
      ⟨Nat.pow 2 52 + fraction, (exponent : Int) - 1075, fraction == 0 && 1 < exponent⟩

/-- The digits of a decimal without the zeros at its end. -/
def trimZeros (digits : List Digit) : List Digit :=
  (digits.reverse.dropWhile (· == Digit.zero)).reverse

/-- An exponent of at least two digits, always with its sign. -/
def exponentOf (magnitude : Int) : Exponent :=
  let digits := digitsOf magnitude.natAbs
  ⟨some (magnitude < 0), if digits.length < 2 then Digit.zero :: digits else digits⟩

/-- Lay out digits whose first one stands for `10 ^ magnitude`. -/
def layOut (negative : Bool) (digits : List Digit) (magnitude : Int) : Decimal :=
  if magnitude < -4 || 16 ≤ magnitude then
    -- Too small or too great for its digits to be laid out around the point.
    let rest := digits.drop 1
    ⟨negative, digits.take 1, if rest.isEmpty then none else some rest,
      some (exponentOf magnitude)⟩
  else if magnitude < 0 then
    ⟨negative, [Digit.zero],
      some (List.replicate ((-magnitude).toNat - 1) Digit.zero ++ digits), none⟩
  else
    let width := magnitude.toNat + 1
    let rest := digits.drop width
    ⟨negative, digits.take width ++ List.replicate (width - digits.length) Digit.zero,
      some (if rest.isEmpty then [Digit.zero] else rest), none⟩

/-- The shortest decimal of a finite double. -/
def decimal? (x : Double) : Option Decimal :=
  match x.meaning with
  | .nan | .infinite _ => none
  | .zero negative => some ⟨negative, [Digit.zero], some [Digit.zero], none⟩
  | .finite negative magnitude =>
      let (n, ten) := magnitude.shortest
      let digits := digitsOf n
      some (layOut negative (trimZeros digits) (ten + digits.length - 1))

def literal (x : Double) : List Char :=
  match x.meaning with
  | .nan => "NAN".toList
  | .infinite negative => if negative then "-INF".toList else "INF".toList
  | _ => (x.decimal?.map Decimal.literal).getD []

def shown (x : Double) : List Char :=
  match x.meaning with
  | .nan => "nan".toList
  | .infinite negative => if negative then "-inf".toList else "inf".toList
  | _ => (x.decimal?.map Decimal.text).getD []

/-- Whether the bits stand for no number. -/
def isNaN (x : Double) : Bool :=
  match x.meaning with
  | .nan => true
  | _ => false

/-- The quiet NaN of a number, which is its payload. -/
def nan (serial : Nat) : Double :=
  ⟨UInt64.ofNat ((Nat.pow 2 12 - 1) * Nat.pow 2 51 + serial % Nat.pow 2 51)⟩

/-- The integer that a double is, when it is one. -/
def toInt? (x : Double) : Option Int :=
  match x.meaning with
  | .nan | .infinite _ => none
  | .zero _ => some 0
  | .finite negative ⟨mantissa, exponent, _⟩ =>
      let scale := Nat.pow 2 (-exponent).toNat
      if mantissa % scale == 0 then
        let n : Int := mantissa / scale * Nat.pow 2 exponent.toNat
        some (if negative then -n else n)
      else none

end Double

end PhpDecl
