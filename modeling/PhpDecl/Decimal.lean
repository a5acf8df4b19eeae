/-!
# Decimal notation

A number in decimal notation is kept as its parts: a sign, the digits before the point, the
digits behind it where there is a point, and an exponent of ten where there is one. There are
two ways of writing it: the short text, which shows exactly these parts, and the literal of
generated code, which always holds a point, so that no reader takes it for an integer.
-/

namespace PhpDecl

abbrev Digit := Fin 10

/-- The digit zero. -/
def Digit.zero : Digit := ⟨0, by decide⟩

def Digit.char (digit : Digit) : Char := Char.ofNat ('0'.toNat + digit.val)

/-- A written exponent: its sign, where one is written, and its digits. -/
structure Exponent where
  /-- Whether a sign is written, and if so, whether it is a minus. -/
  sign : Option Bool
  digits : List Digit
  deriving DecidableEq, Repr

structure Decimal where
  negative : Bool
  whole : List Digit
  fraction : Option (List Digit)
  exponent : Option Exponent
  deriving DecidableEq, Repr

def Digit.chars (digits : List Digit) : List Char := digits.map Digit.char

namespace Exponent

def text (exponent : Exponent) : List Char :=
  'e' :: (match exponent.sign with
    | none => []
    | some negative => [if negative then '-' else '+']) ++ Digit.chars exponent.digits

/-- The digits of an exponent without leading zeros; of zero, one digit stays. -/
def significant (digits : List Digit) : List Digit :=
  match digits.dropWhile (· == Digit.zero) with
  | [] => [Digit.zero]
  | kept => kept

/-- The exponent of a literal: always with its sign, and with no zero in front. -/
def literal (exponent : Exponent) : List Char :=
  'E' :: (if exponent.sign == some true then '-' else '+') ::
    Digit.chars (significant exponent.digits)

end Exponent

namespace Decimal

def signText (decimal : Decimal) : List Char := if decimal.negative then ['-'] else []

/-- The short text: every part as it is. -/
def text (decimal : Decimal) : List Char :=
  decimal.signText ++ Digit.chars decimal.whole ++
    (match decimal.fraction with
    | none => []
    | some digits => '.' :: Digit.chars digits) ++
    (match decimal.exponent with
    | none => []
    | some exponent => exponent.text)

/-- The literal: `.0` where there is no point, and the exponent behind an `E`. -/
def literal (decimal : Decimal) : List Char :=
  decimal.signText ++ Digit.chars decimal.whole ++
    '.' :: Digit.chars (decimal.fraction.getD [Digit.zero]) ++
    (match decimal.exponent with
    | none => []
    | some exponent => exponent.literal)

/-- The decimal digits of a number, the highest first; zero has one. -/
def digitsOf (n : Nat) : List Digit :=
  if n < 10 then [Fin.ofNat 10 n] else digitsOf (n / 10) ++ [Fin.ofNat 10 n]

end Decimal

end PhpDecl
