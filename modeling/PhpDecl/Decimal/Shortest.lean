import PhpDecl.Decimal

/-!
# The shortest decimal of a binary fraction

A positive number `m · 2 ^ q` of a binary format stands for an interval of reals, those that
are rounded to it. Among the decimals in the interval the shortest is chosen, of several as
short the nearest, and of two as near the one whose last digit is even. The search looks at
grids of one to seventeen digits; on a grid only the two neighbours of the number matter,
since when any point of it lies in the interval, so does one of these. All arithmetic is exact.
-/

namespace PhpDecl.Decimal

structure BinaryFraction where
  /-- The binary digits, as an integer. -/
  mantissa : Nat
  exponent : Int
  /-- Whether the next smaller number is only half as far as the next greater one. -/
  closeBelow : Bool
  deriving DecidableEq, Repr

structure Ratio where
  num : Nat
  den : Nat

/-- `n · 2 ^ two · 10 ^ ten` as a ratio. -/
def Ratio.scaled (n : Nat) (two ten : Int) : Ratio :=
  ⟨n * Nat.pow 2 two.toNat * Nat.pow 10 ten.toNat,
    Nat.pow 2 (-two).toNat * Nat.pow 10 (-ten).toNat⟩

/-- The exponent of ten of the first digit of a positive ratio. -/
def Ratio.magnitude (r : Ratio) : Int :=
  if r.den ≤ r.num then (digitsOf (r.num / r.den)).length - 1
  else
    -- The first digit stands as many places behind the point as `c` has digits.
    let c := (r.den - 1) / r.num
    if c == 0 then 0 else -(digitsOf c).length

namespace BinaryFraction

/-- The quarter of a unit in the last place is the unit of the interval's ends; in it the number
itself is four times its mantissa. -/
def inQuarters (x : BinaryFraction) (quarters : Nat) (ten : Int) : Ratio :=
  Ratio.scaled quarters (x.exponent - 2) ten

def lowerEnd (x : BinaryFraction) : Nat := 4 * x.mantissa - (if x.closeBelow then 1 else 2)

def upperEnd (x : BinaryFraction) : Nat := 4 * x.mantissa + 2

/-- Whether `n · 10 ^ ten` is rounded to the number; the ends of the interval are, when the
mantissa is even. -/
def admits (x : BinaryFraction) (n : Nat) (ten : Int) : Bool :=
  let low := x.inQuarters x.lowerEnd (-ten)
  let high := x.inQuarters x.upperEnd (-ten)
  if x.mantissa % 2 == 0 then low.num ≤ n * low.den && n * high.den ≤ high.num
  else low.num < n * low.den && n * high.den < high.num

/-- The multiple of `10 ^ ten` next to the number that is rounded to it, if there is one: the
nearer of the two, and in the middle the even one. -/
def neighbour? (x : BinaryFraction) (ten : Int) : Option Nat :=
  let value := x.inQuarters (4 * x.mantissa) (-ten)
  let below := value.num / value.den
  let rest := value.num % value.den
  let belowNearer := 2 * rest < value.den || (2 * rest == value.den && below % 2 == 0)
  let order := if belowNearer then [below, below + 1] else [below + 1, below]
  order.find? (x.admits · ten)

/-- Search the grids of `digits` and more digits, up to `fuel` of them. -/
def search (x : BinaryFraction) (magnitude : Int) : Nat → Nat → Nat × Int
  -- Seventeen digits tell all doubles apart, so the search ends before.
  | _, 0 => (x.mantissa, 0)
  | digits, fuel + 1 =>
      let ten := magnitude + 1 - digits
      match x.neighbour? ten with
      | some n => (n, ten)
      | none => search x magnitude (digits + 1) fuel

/-- The shortest decimal: a natural number and the exponent of ten it is multiplied with. -/
def shortest (x : BinaryFraction) : Nat × Int :=
  x.search (x.inQuarters (4 * x.mantissa) 0).magnitude 1 17

end BinaryFraction

end PhpDecl.Decimal
