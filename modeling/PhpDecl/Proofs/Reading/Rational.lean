import Mathlib.Algebra.Order.Field.Rat
import Mathlib.Data.Nat.Digits.Defs
import PhpDecl.Proofs.Literals
import PhpDecl.Proofs.Reading.Number

/-!
# Numbers in decimal notation

A text in decimal notation denotes a rational number, whatever the mark of its exponent is. The
reader of such texts gives back the parts that a text was written from (`Decimal.ofText?_textWith`),
so to compare the numbers of two texts is arithmetic on their parts: a zero behind the point counts
for nothing, and neither do zeros in front of an exponent (`Decimal.value_pointed`).
-/

namespace PhpDecl

/-! ## Digits -/

namespace Digit

/-- The digit that a character shows. -/
def ofChar (c : Char) : Digit := ⟨(c.toNat - '0'.toNat) % 10, Nat.mod_lt _ (by decide)⟩

theorem ofChar_char : ∀ digit : Digit, ofChar digit.char = digit := by decide

theorem char_ofChar {c : Char} (digit : c.isDigit = true) : (ofChar c).char = c := by
  have bounds : (decide (c.val ≥ 48) && decide (c.val ≤ 57)) = true := digit
  rw [Bool.and_eq_true, decide_eq_true_eq, decide_eq_true_eq] at bounds
  have low : c.toNat < 0x3a := Nat.lt_of_le_of_lt (UInt32.le_iff_toNat_le.1 bounds.2) (by decide)
  exact Text.forall_low (P := fun c => c.isDigit = true → (ofChar c).char = c) (by decide +kernel)
    low digit

theorem char_ne {c : Char} (other : c.isDigit = false) (digit : Digit) : digit.char ≠ c := by
  rintro rfl
  rw [isDigit_char] at other
  cases other

theorem map_ofChar_chars (digits : List Digit) : (chars digits).map ofChar = digits := by
  rw [chars, List.map_map]
  exact (List.map_congr_left fun digit _ => ofChar_char digit).trans (List.map_id _)

/-- A run of digit characters shows digits. -/
theorem chars_map_ofChar {text : List Char} (all : text.all Char.isDigit = true) :
    chars (text.map ofChar) = text := by
  rw [chars, List.map_map]
  exact (List.map_congr_left fun c member =>
    char_ofChar (List.all_eq_true.1 all c member)).trans (List.map_id _)

/-- The natural number that digits show, the highest of them first. -/
def number (digits : List Digit) : Nat := Nat.ofDigits 10 (digits.reverse.map Fin.val)

theorem number_append (front back : List Digit) :
    number (front ++ back) = number front * 10 ^ back.length + number back := by
  rw [number, List.reverse_append, List.map_append, Nat.ofDigits_append, List.length_map,
    List.length_reverse, Nat.add_comm, Nat.mul_comm]
  rfl

/-- Zeros in front count for nothing. -/
theorem number_dropWhile_zero (digits : List Digit) :
    number (digits.dropWhile (· == zero)) = number digits := by
  induction digits with
  | nil => rfl
  | cons digit digits ih =>
      rw [List.dropWhile_cons]
      split
      next same =>
        rw [ih, eq_of_beq same, ← List.singleton_append, number_append]
        have none : number [zero] = 0 := rfl
        rw [none, Nat.zero_mul, Nat.zero_add]
      next => rfl

theorem number_significant (digits : List Digit) :
    number (Exponent.significant digits) = number digits := by
  rw [← number_dropWhile_zero digits, Exponent.significant]
  split
  next none => rw [none]; rfl
  next => rfl

end Digit

/-! ## Texts in decimal notation -/

namespace Exponent

/-- The integer that the exponent shows. -/
def power (exponent : Exponent) : Int :=
  if exponent.sign = some true then -(Digit.number exponent.digits : Int)
  else Digit.number exponent.digits

/-- The exponent behind its mark. -/
def behindMark (exponent : Exponent) : List Char :=
  exponent.sign.elim [] (fun negative => [if negative then '-' else '+']) ++
    Digit.chars exponent.digits

/-- The exponent as a literal shows it: with its sign, and with no zeros in front. -/
def signed (exponent : Exponent) : Exponent :=
  ⟨some (exponent.sign == some true), significant exponent.digits⟩

/-- Read digits behind a sign. -/
def ofDigits? (sign : Option Bool) (text : List Char) : Option Exponent :=
  if text.isEmpty || !text.all Char.isDigit then none else some ⟨sign, text.map Digit.ofChar⟩

/-- Read an exponent behind its mark. -/
def ofText? : List Char → Option Exponent
  | '-' :: text => ofDigits? (some true) text
  | '+' :: text => ofDigits? (some false) text
  | text => ofDigits? none text

theorem ofDigits?_chars (sign : Option Bool) {digits : List Digit} (nonempty : digits ≠ []) :
    ofDigits? sign (Digit.chars digits) = some ⟨sign, digits⟩ := by
  rw [ofDigits?, Digit.all_isDigit_chars, Digit.map_ofChar_chars, if_neg]
  simpa using nonempty

/-- An exponent is read back. -/
theorem ofText?_behindMark {exponent : Exponent} (written : exponent.digits ≠ []) :
    ofText? exponent.behindMark = some exponent := by
  obtain ⟨sign, digits⟩ := exponent
  cases sign with
  | some negative =>
      cases negative
      · exact ofDigits?_chars (some false) written
      · exact ofDigits?_chars (some true) written
  | none =>
      obtain ⟨first, others, rfl⟩ := List.exists_cons_of_ne_nil written
      rw [← ofDigits?_chars none written, behindMark, Option.elim_none, List.nil_append,
        Digit.chars, List.map_cons, ofText?]
      · intro text same
        exact Digit.char_ne (by decide) first (List.cons.inj same).1
      · intro text same
        exact Digit.char_ne (by decide) first (List.cons.inj same).1

/-- Neither an explicit sign nor the zeros in front change an exponent. -/
theorem power_signed (exponent : Exponent) : exponent.signed.power = exponent.power := by
  rw [power, power, signed, Digit.number_significant]
  refine if_congr ?_ rfl rfl
  rw [Option.some.injEq, beq_iff_eq]

end Exponent

namespace Decimal

/-- Digits stand wherever the notation has a place for them. -/
structure Written (decimal : Decimal) : Prop where
  whole : decimal.whole ≠ []
  fraction : decimal.fraction ≠ some []
  exponent : ∀ exponent ∈ decimal.exponent, exponent.digits ≠ []

/-- The rational number that a decimal stands for. -/
def value (decimal : Decimal) : ℚ :=
  (if decimal.negative then -1 else 1) *
    (Digit.number (decimal.whole ++ decimal.fraction.getD []) : ℚ) *
      10 ^ ((decimal.exponent.elim 0 Exponent.power) - ((decimal.fraction.getD []).length : Int))

/-- The sign, the digits, and the point where there is one. -/
def mantissa (decimal : Decimal) : List Char :=
  decimal.signText ++ Digit.chars decimal.whole ++
    decimal.fraction.elim [] fun digits => '.' :: Digit.chars digits

/-- The decimal with a mark of its own in front of the exponent. -/
def textWith (mark : Char) (decimal : Decimal) : List Char :=
  decimal.mantissa ++ decimal.exponent.elim [] fun exponent => mark :: exponent.behindMark

/-- Read what may stand behind the digits of a number: nothing, or a mark and an exponent. -/
def exponentOf? : List Char → Option (Option Exponent)
  | [] => some none
  | mark :: text => if mark == 'e' || mark == 'E' then (Exponent.ofText? text).map some else none

/-- Read a decimal without its sign. -/
def ofUnsigned? (negative : Bool) (text : List Char) : Option Decimal :=
  let whole := text.takeWhile Char.isDigit
  if whole.isEmpty then none
  else
    match text.dropWhile Char.isDigit with
    | '.' :: rest =>
        let fraction := rest.takeWhile Char.isDigit
        if fraction.isEmpty then none
        else (exponentOf? (rest.dropWhile Char.isDigit)).map
          (⟨negative, whole.map Digit.ofChar, some (fraction.map Digit.ofChar), ·⟩)
    | rest => (exponentOf? rest).map (⟨negative, whole.map Digit.ofChar, none, ·⟩)

/-- Read a text in decimal notation. -/
def ofText? : List Char → Option Decimal
  | '-' :: text => ofUnsigned? true text
  | text => ofUnsigned? false text

/-- The rational number that a text denotes, if it is in decimal notation. -/
def rational? (text : List Char) : Option ℚ := (ofText? text).map value

theorem text_eq (decimal : Decimal) : decimal.text = decimal.textWith 'e' := by
  obtain ⟨negative, whole, fraction, exponent⟩ := decimal
  cases exponent with
  | none => cases fraction <;> rfl
  | some exponent =>
      obtain ⟨sign, digits⟩ := exponent
      cases fraction <;> cases sign <;> rfl

/-- What is written as the literal: a decimal with a point, and with no zeros in front of its
exponent. -/
def pointed (decimal : Decimal) : Decimal where
  negative := decimal.negative
  whole := decimal.whole
  fraction := some (decimal.fraction.getD [Digit.zero])
  exponent := decimal.exponent.map Exponent.signed

theorem literal_eq (decimal : Decimal) : decimal.literal = decimal.pointed.textWith 'E' := by
  obtain ⟨negative, whole, fraction, exponent⟩ := decimal
  cases exponent <;> rfl

/-! ## Reading back -/

variable {mark : Char} {decimal : Decimal}

theorem exponentOf?_marked (marks : mark = 'e' ∨ mark = 'E') {exponent : Option Exponent}
    (written : ∀ e ∈ exponent, e.digits ≠ []) :
    exponentOf? (exponent.elim [] fun e => mark :: e.behindMark) = some exponent := by
  cases exponent with
  | none => rfl
  | some exponent =>
      have marked : (mark == 'e' || mark == 'E') = true := by
        rcases marks with rfl | rfl <;> rfl
      rw [Option.elim_some, exponentOf?, if_pos marked,
        Exponent.ofText?_behindMark (written exponent rfl)]
      rfl

/-- No digit stands where an exponent may. -/
theorem takeWhile_marked (marks : mark = 'e' ∨ mark = 'E') (exponent : Option Exponent) :
    (exponent.elim [] fun e => mark :: e.behindMark).takeWhile Char.isDigit = [] := by
  cases exponent with
  | none => rfl
  | some exponent => rcases marks with rfl | rfl <;> rfl

theorem ofUnsigned?_textWith (marks : mark = 'e' ∨ mark = 'E') (written : decimal.Written) :
    ofUnsigned? decimal.negative ((Digit.chars decimal.whole ++
      decimal.fraction.elim [] fun digits => '.' :: Digit.chars digits) ++
        decimal.exponent.elim [] fun e => mark :: e.behindMark) = some decimal := by
  obtain ⟨negative, whole, fraction, exponent⟩ := decimal
  have ends := takeWhile_marked marks exponent
  have read := exponentOf?_marked marks written.exponent
  have left : (Digit.chars whole).isEmpty = false := by simpa using written.whole
  generalize (exponent.elim [] fun e => mark :: e.behindMark) = rest at ends read ⊢
  cases fraction with
  | none =>
      rw [Option.elim_none, List.append_nil, ofUnsigned?, Digit.takeWhile_chars whole ends,
        Digit.dropWhile_chars whole ends]
      simp only [left, Bool.false_eq_true, if_false]
      split
      next point =>
        -- A point is no mark.
        rw [exponentOf?, if_neg (by decide)] at read
        cases read
      next => rw [read, Option.map_some, Digit.map_ofChar_chars]
  | some digits =>
      have point : ('.' :: (Digit.chars digits ++ rest)).takeWhile Char.isDigit = [] := rfl
      have right : (Digit.chars digits).isEmpty = false := by simpa using written.fraction
      rw [Option.elim_some, List.append_assoc, List.cons_append, ofUnsigned?,
        Digit.takeWhile_chars whole point, Digit.dropWhile_chars whole point]
      simp only [Digit.takeWhile_chars digits ends, Digit.dropWhile_chars digits ends, left, right,
        Bool.false_eq_true, if_false, read, Option.map_some, Digit.map_ofChar_chars]

/-- A decimal is read back, whichever mark its exponent has. -/
theorem ofText?_textWith (marks : mark = 'e' ∨ mark = 'E') (written : decimal.Written) :
    ofText? (decimal.textWith mark) = some decimal := by
  have read := ofUnsigned?_textWith marks written
  rw [textWith, mantissa, List.append_assoc, List.append_assoc, ← List.append_assoc (Digit.chars _),
    signText]
  cases sign : decimal.negative with
  | true => rwa [if_pos rfl, List.singleton_append, ofText?, ← sign]
  | false =>
      obtain ⟨first, others, split⟩ := List.exists_cons_of_ne_nil written.whole
      rw [sign] at read
      rw [if_neg Bool.false_ne_true, List.nil_append]
      rw [split] at read ⊢
      rwa [ofText?]
      intro text same
      exact Digit.char_ne (by decide) first (List.cons.inj same).1

/-! ## The literal denotes the same number -/

/-- A zero behind the point counts for nothing. -/
theorem number_zero_behind (whole : List Digit) (power : Int) :
    (Digit.number (whole ++ [Digit.zero]) : ℚ) * 10 ^ (power - 1) =
      Digit.number whole * 10 ^ power := by
  have zero : Digit.number [Digit.zero] = 0 := rfl
  have ten : (10 : ℚ) ≠ 0 := by decide
  have shifted : (Digit.number (whole ++ [Digit.zero]) : ℚ) = Digit.number whole * 10 := by
    rw [Digit.number_append, zero, List.length_singleton, Nat.add_zero, Nat.pow_one, Nat.cast_mul,
      Nat.cast_ofNat]
  calc (Digit.number (whole ++ [Digit.zero]) : ℚ) * 10 ^ (power - 1)
      = Digit.number whole * (10 * 10 ^ (power - 1)) := by rw [shifted, mul_assoc]
    _ = Digit.number whole * 10 ^ power := by
        rw [mul_comm 10, zpow_sub_one₀ ten, inv_mul_cancel_right₀ ten]

theorem value_pointed (decimal : Decimal) : decimal.pointed.value = decimal.value := by
  obtain ⟨negative, whole, fraction, exponent⟩ := decimal
  have power : (exponent.map Exponent.signed).elim 0 Exponent.power =
      exponent.elim 0 Exponent.power := by
    cases exponent with
    | none => rfl
    | some exponent => exact exponent.power_signed
  rw [value, value, pointed, power]
  cases fraction with
  | none =>
      simp only [Option.getD_none, Option.getD_some, List.append_nil, List.length_singleton,
        List.length_nil, Nat.cast_one, Nat.cast_zero, sub_zero, mul_assoc]
      rw [number_zero_behind]
  | some digits => rfl

theorem Written.pointed (written : decimal.Written) : decimal.pointed.Written where
  whole := written.whole
  fraction empty := by
    cases given : decimal.fraction with
    | none =>
        rw [Decimal.pointed, given] at empty
        cases empty
    | some digits =>
        rw [Decimal.pointed, given] at empty
        exact written.fraction (given.trans empty)
  exponent exponent member := by
    obtain ⟨own, given, rfl⟩ := Option.map_eq_some_iff.1 member
    exact Exponent.significant_ne_nil own.digits

end Decimal

end PhpDecl
