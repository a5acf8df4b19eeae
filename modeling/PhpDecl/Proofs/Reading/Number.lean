import Mathlib.Data.List.TakeWhile
import PhpDecl.Literal.Printer
import PhpDecl.Proofs.Reading

/-!
# Reading words

The reader takes the decimal text of an integer for that integer, and the literal of a double,
which always holds a point or is one of the three names, for a float with that very text.
-/

namespace PhpDecl

open Decimal

/-! ## Decimal digits -/

namespace Digit

theorem isDigit_char : ∀ digit : Digit, digit.char.isDigit = true := by decide

theorem toNat_char : ∀ digit : Digit, digit.char.toNat - '0'.toNat = digit.val := by decide

theorem char_eq_zero : ∀ digit : Digit, digit.char = '0' → digit = zero := by decide

theorem isDigit_of_mem_chars {digits : List Digit} {c : Char} (h : c ∈ chars digits) :
    c.isDigit = true := by
  obtain ⟨digit, _, rfl⟩ := List.mem_map.1 h
  exact isDigit_char digit

theorem all_isDigit_chars (digits : List Digit) : (chars digits).all Char.isDigit = true :=
  List.all_eq_true.2 fun _ => isDigit_of_mem_chars

@[simp] theorem chars_eq_nil {digits : List Digit} : chars digits = [] ↔ digits = [] :=
  List.map_eq_nil_iff

/-- A run of digits ends where no digit stands. -/
theorem takeWhile_chars (digits : List Digit) {rest : List Char}
    (ends : rest.takeWhile Char.isDigit = []) :
    (chars digits ++ rest).takeWhile Char.isDigit = chars digits := by
  rw [List.takeWhile_append_of_pos (fun _ => isDigit_of_mem_chars), ends, List.append_nil]

theorem dropWhile_chars (digits : List Digit) {rest : List Char}
    (ends : rest.takeWhile Char.isDigit = []) :
    (chars digits ++ rest).dropWhile Char.isDigit = rest := by
  rw [List.dropWhile_append_of_pos (fun _ => isDigit_of_mem_chars)]
  simpa [ends] using List.takeWhile_append_dropWhile (p := Char.isDigit) (l := rest)

end Digit

/-- Of the digits of an exponent, one at least is significant. -/
theorem Exponent.significant_ne_nil (digits : List Digit) : significant digits ≠ [] := by
  unfold significant
  split
  next => exact List.cons_ne_nil _ _
  next kept => exact kept

namespace Decimal

theorem digitsOf_of_lt {n : Nat} (h : n < 10) : digitsOf n = [Fin.ofNat 10 n] := by
  rw [digitsOf, if_pos h]

theorem digitsOf_of_le {n : Nat} (h : 10 ≤ n) :
    digitsOf n = digitsOf (n / 10) ++ [Fin.ofNat 10 n] := by
  rw [digitsOf, if_neg (by omega)]

/-- A positive number has no zero in front. -/
theorem exists_digitsOf_eq_cons {n : Nat} (positive : 0 < n) :
    ∃ first rest, digitsOf n = first :: rest ∧ first ≠ Digit.zero := by
  induction n using Nat.strongRecOn with
  | ind n ih =>
      by_cases small : n < 10
      · refine ⟨_, _, digitsOf_of_lt small, fun h => ?_⟩
        have := congrArg Fin.val h
        simp only [Fin.ofNat, Digit.zero] at this
        omega
      · obtain ⟨first, rest, split, nonzero⟩ := ih (n / 10) (by omega) (by omega)
        exact ⟨first, rest ++ [Fin.ofNat 10 n], by
          rw [digitsOf_of_le (by omega), split, List.cons_append], nonzero⟩

theorem digitsOf_ne_nil (n : Nat) : digitsOf n ≠ [] := by
  by_cases small : n < 10
  · simp [digitsOf_of_lt small]
  · simp [digitsOf_of_le (Nat.le_of_not_lt small)]

end Decimal

namespace Reading

/-! ## Integers -/

/-- The digits of a number, read from the first on, give the number back. -/
theorem foldl_digitsOf (n : Nat) :
    (Digit.chars (digitsOf n)).foldl (fun m c => 10 * m + (c.toNat - '0'.toNat)) 0 = n := by
  induction n using Nat.strongRecOn with
  | ind n ih =>
      by_cases small : n < 10
      · rw [digitsOf_of_lt small]
        simp only [Digit.chars, List.map_cons, List.map_nil, List.foldl_cons, List.foldl_nil,
          Digit.toNat_char, Fin.ofNat]
        omega
      · rw [digitsOf_of_le (by omega)]
        rw [Digit.chars, List.map_append, List.foldl_append, ← Digit.chars, ih (n / 10) (by omega)]
        simp only [List.map_cons, List.map_nil, List.foldl_cons, List.foldl_nil,
          Digit.toNat_char, Fin.ofNat]
        omega

theorem natOf?_digitsOf (n : Nat) : natOf? (Digit.chars (digitsOf n)) = some n := by
  rw [natOf?, if_neg, foldl_digitsOf]
  simp only [Digit.all_isDigit_chars, Bool.not_true, Bool.or_false, Bool.or_eq_true,
    List.isEmpty_iff, Digit.chars_eq_nil, digitsOf_ne_nil, false_or, Bool.and_eq_true,
    decide_eq_true_eq, beq_iff_eq, not_and]
  intro long zero
  by_cases small : n < 10
  · simp [digitsOf_of_lt small, Digit.chars] at long
  · obtain ⟨first, rest, split, nonzero⟩ := exists_digitsOf_eq_cons (n := n) (by omega)
    rw [split, Digit.chars, List.map_cons, List.head?_cons, Option.some.injEq] at zero
    exact nonzero (Digit.char_eq_zero first zero)

/-- What is read as a natural number is a run of digits. -/
theorem all_isDigit_of_natOf? {letters : List Char} {n : Nat} (h : natOf? letters = some n) :
    letters.all Char.isDigit = true := by
  rw [natOf?] at h
  split at h
  · cases h
  · next accepted =>
    simp only [Bool.or_eq_true, not_or, Bool.not_eq_true, Bool.not_eq_false'] at accepted
    exact accepted.1.2

theorem intOf?_intText (n : Int) : intOf? (Literal.intText n) = some n := by
  rw [Literal.intText]
  split
  next negative =>
    rw [List.cons_append, List.nil_append, intOf?, natOf?_digitsOf, Option.map_some]
    exact congrArg some (by omega : -(n.natAbs : Int) = n)
  next positive =>
    obtain ⟨first, rest, split⟩ := List.exists_cons_of_ne_nil
      (mt Digit.chars_eq_nil.1 (digitsOf_ne_nil n.natAbs))
    have digit : first.isDigit = true :=
      Digit.isDigit_of_mem_chars (split ▸ List.mem_cons_self ..)
    have unsigned : first ≠ '-' := fun h => absurd (h ▸ digit) (by decide)
    rw [List.nil_append, split, intOf?, ← split, natOf?_digitsOf]
    · exact congrArg some (by omega : (n.natAbs : Int) = n)
    · intro digits h
      exact unsigned (List.cons.inj h).1

/-- A run of digits is no float. -/
theorem isUnsignedFloat_of_natOf? {letters : List Char} {n : Nat} (h : natOf? letters = some n) :
    isUnsignedFloat letters = false := by
  have digits := all_isDigit_of_natOf? h
  have noName : (letters == "INF".toList) = false := by
    refine beq_eq_false_iff_ne.2 fun same => ?_
    rw [same] at digits
    exact absurd digits (by decide)
  have noPoint : letters.dropWhile Char.isDigit = [] :=
    List.dropWhile_eq_nil_iff.2 (List.all_eq_true.1 digits)
  rw [isUnsignedFloat, noName, isPointed, noPoint, Bool.false_or]

theorem isFloat_of_intOf? {letters : List Char} {n : Int} (h : intOf? letters = some n) :
    isFloat letters = false := by
  unfold intOf? at h
  split at h
  next digits =>
    obtain ⟨_, natural, _⟩ := Option.map_eq_some_iff.1 h
    exact isUnsignedFloat_of_natOf? natural
  next signed =>
    obtain ⟨_, natural, _⟩ := Option.map_eq_some_iff.1 h
    have noName : (letters == "NAN".toList) = false := by
      refine beq_eq_false_iff_ne.2 fun same => ?_
      rw [same] at natural
      exact absurd (all_isDigit_of_natOf? natural) (by decide)
    rw [isFloat, noName, Bool.false_or, isUnsignedFloat_of_natOf? natural]
    exact signed

/-- A word that spells an integer is read as that integer: it is none of the names. -/
theorem ofWord?_of_intOf? {letters : List Char} {n : Int} (h : intOf? letters = some n) :
    ofWord? letters = some (.int n) := by
  have differs {name : String} (none : intOf? name.toList = none) :
      ¬(letters == name.toList) = true := by
    intro same
    rw [eq_of_beq same, none] at h
    cases h
  rw [ofWord?, if_neg (differs (by decide)), if_neg (differs (by decide)),
    if_neg (differs (by decide)), isFloat_of_intOf? h, if_neg Bool.false_ne_true, h]
  rfl

/-- The text of an integer is read as that integer. -/
theorem ofWord?_intText (n : Int) : ofWord? (Literal.intText n) = some (.int n) :=
  ofWord?_of_intOf? (intOf?_intText n)

/-! ## Floats -/

/-- A word that is a float is read as that float: it is none of the names. -/
theorem ofWord?_of_isFloat {letters : List Char} (h : isFloat letters = true) :
    ofWord? letters = some (.float letters) := by
  have differs {name : String} (other : isFloat name.toList = false) :
      ¬(letters == name.toList) = true := by
    intro same
    rw [eq_of_beq same, other] at h
    cases h
  rw [ofWord?, if_neg (differs (by decide)), if_neg (differs (by decide)),
    if_neg (differs (by decide)), if_pos h]

theorem isExponent_literal (exponent : Exponent) : isExponent exponent.literal = true := by
  have digits := Exponent.significant_ne_nil exponent.digits
  have sign : ((if exponent.sign == some true then '-' else '+') == '+' ||
      (if exponent.sign == some true then '-' else '+') == '-') = true := by
    split <;> rfl
  rw [Exponent.literal, isExponent, sign, Digit.all_isDigit_chars, Bool.true_and, Bool.and_true]
  simp [digits]

/-- A point between digits makes a float, with an exponent or without. -/
theorem isPointed_chars {whole fraction : List Digit} {rest : List Char} (left : whole ≠ [])
    (right : fraction ≠ []) (exponent : isExponent rest = true) :
    isPointed (Digit.chars whole ++ '.' :: (Digit.chars fraction ++ rest)) = true := by
  have ends : rest.takeWhile Char.isDigit = [] := by
    unfold isExponent at exponent
    split at exponent
    · rfl
    · rfl
    · cases exponent
  have point : ('.' :: (Digit.chars fraction ++ rest)).takeWhile Char.isDigit = [] := rfl
  rw [isPointed, Digit.dropWhile_chars whole point, Digit.takeWhile_chars whole point]
  simp only [Digit.takeWhile_chars fraction ends, Digit.dropWhile_chars fraction ends, exponent,
    Bool.and_true, Bool.and_eq_true, Bool.not_eq_true', List.isEmpty_eq_false_iff, ne_eq,
    Digit.chars_eq_nil]
  exact ⟨left, right⟩

/-- A sign in front leaves it a float. -/
theorem isFloat_signed (negative : Bool) {whole fraction : List Digit} {rest : List Char}
    (left : whole ≠ []) (right : fraction ≠ []) (exponent : isExponent rest = true) :
    isFloat ((if negative then ['-'] else []) ++
      (Digit.chars whole ++ '.' :: (Digit.chars fraction ++ rest))) = true := by
  have pointed := isPointed_chars left right exponent
  cases negative with
  | true =>
      rw [if_pos rfl, List.cons_append, List.nil_append, isFloat, isUnsignedFloat, pointed,
        Bool.or_true]
  | false =>
      obtain ⟨first, others, rfl⟩ := List.exists_cons_of_ne_nil left
      have unsigned : first.char ≠ '-' := by
        intro same
        exact absurd (same ▸ Digit.isDigit_char first) (by decide)
      rw [Digit.chars, List.map_cons, List.cons_append] at pointed ⊢
      rw [if_neg Bool.false_ne_true, List.nil_append, isFloat, isUnsignedFloat, pointed,
        Bool.or_true, Bool.or_true]
      intro letters same
      exact unsigned (List.cons.inj same).1

/-- The literal of a decimal is a float when digits stand on both sides of the point. -/
theorem isFloat_decimalLiteral {decimal : Decimal} (whole : decimal.whole ≠ [])
    (fraction : decimal.fraction ≠ some []) : isFloat decimal.literal = true := by
  have right : decimal.fraction.getD [Digit.zero] ≠ [] := by
    cases written : decimal.fraction with
    | none => simp
    | some digits =>
        intro empty
        exact fraction (written.trans (congrArg some empty))
  rw [Decimal.literal, Decimal.signText, List.append_assoc, List.append_assoc, List.cons_append]
  refine isFloat_signed decimal.negative whole right ?_
  cases decimal.exponent with
  | none => rfl
  | some exponent => exact isExponent_literal exponent

end Reading

namespace Decimal.BinaryFraction

/-- The lower end of a number's interval lies above zero. -/
theorem not_admits_zero {x : BinaryFraction} (positive : 0 < x.mantissa) (ten : Int) :
    x.admits 0 ten = false := by
  have end_pos : 0 < x.lowerEnd := by
    rw [lowerEnd]
    split <;> omega
  have low_pos : 0 < (x.inQuarters x.lowerEnd (-ten)).num :=
    Nat.mul_pos (Nat.mul_pos end_pos (Nat.pow_pos (by decide))) (Nat.pow_pos (by decide))
  rw [admits]
  split
  · simp [Nat.not_le.2 low_pos]
  · simp

theorem pos_of_neighbour? {x : BinaryFraction} (positive : 0 < x.mantissa) {ten : Int} {n : Nat}
    (h : x.neighbour? ten = some n) : 0 < n := by
  have admitted : x.admits n ten = true := List.find?_some (p := (x.admits · ten)) h
  refine Nat.pos_of_ne_zero fun zero => ?_
  rw [zero, not_admits_zero positive] at admitted
  cases admitted

theorem search_pos {x : BinaryFraction} (positive : 0 < x.mantissa) (magnitude : Int)
    (digits fuel : Nat) : 0 < (x.search magnitude digits fuel).1 := by
  induction fuel generalizing digits with
  | zero => exact positive
  | succ fuel ih =>
      rw [search]
      split
      next found => exact pos_of_neighbour? positive found
      next => exact ih (digits + 1)

/-- The shortest decimal of a positive number is positive. -/
theorem shortest_pos {x : BinaryFraction} (positive : 0 < x.mantissa) : 0 < x.shortest.1 :=
  search_pos positive _ 1 17

end Decimal.BinaryFraction

namespace Double

theorem mantissa_pos {x : Double} {negative : Bool} {magnitude : BinaryFraction}
    (h : x.meaning = .finite negative magnitude) : 0 < magnitude.mantissa := by
  unfold meaning at h
  simp only at h
  split at h
  · split at h <;> cases h
  · split at h
    · split at h
      · cases h
      · next nonzero =>
        cases h
        exact Nat.pos_of_ne_zero fun zero => nonzero (beq_iff_eq.2 zero)
    · cases h
      exact Nat.add_pos_left (by decide) _

/-- Trimming the zeros of a positive number leaves its first digit. -/
theorem trimZeros_digitsOf_ne_nil {n : Nat} (positive : 0 < n) : trimZeros (digitsOf n) ≠ [] := by
  obtain ⟨first, rest, split, nonzero⟩ := exists_digitsOf_eq_cons positive
  rw [trimZeros, split, ne_eq, List.reverse_eq_nil_iff, List.dropWhile_eq_nil_iff]
  intro zeros
  exact nonzero (eq_of_beq (zeros first (by simp)))

theorem layOut_whole_ne_nil (negative : Bool) {digits : List Digit} (h : digits ≠ [])
    (magnitude : Int) : (layOut negative digits magnitude).whole ≠ [] := by
  unfold layOut
  split
  · simp [h]
  · split
    · simp
    · simp [h]

theorem layOut_fraction_ne_nil (negative : Bool) {digits : List Digit} (h : digits ≠ [])
    (magnitude : Int) : (layOut negative digits magnitude).fraction ≠ some [] := by
  unfold layOut
  split
  · simp only
    split
    · simp
    · next some => simpa using some
  · split
    · simp [h]
    · simp only
      split
      · simp
      · next some => simpa using some

/-- The literal of a double is a float. -/
theorem isFloat_literal (x : Double) : Reading.isFloat x.literal = true := by
  rw [literal, decimal?]
  cases meaning : x.meaning with
  | nan => decide
  | infinite negative => cases negative <;> decide
  | zero negative => cases negative <;> decide
  | finite negative magnitude =>
      have digits := trimZeros_digitsOf_ne_nil
        (BinaryFraction.shortest_pos (mantissa_pos meaning))
      exact Reading.isFloat_decimalLiteral (layOut_whole_ne_nil negative digits _)
        (layOut_fraction_ne_nil negative digits _)

end Double

namespace Reading

/-- The literal of a double is read as the float with that text. -/
theorem ofWord?_doubleLiteral (x : Double) : ofWord? x.literal = some (.float x.literal) :=
  ofWord?_of_isFloat x.isFloat_literal

/-! ## Words -/

/-- Whether a text can stand as a word: it is not empty, and made of the characters of words. -/
def isWord (letters : List Char) : Bool := !letters.isEmpty && letters.all isWordChar

theorem ne_of_isWordChar {c d : Char} (word : isWordChar c = true)
    (other : isWordChar d = false) : c ≠ d := by
  rintro rfl
  rw [other] at word
  cases word

theorem isWordChar_of_isDigit {c : Char} (h : c.isDigit = true) : isWordChar c = true := by
  simp [isWordChar, Char.isAlphanum, h]

theorem all_isWordChar_of_isDigit {letters : List Char} (h : letters.all Char.isDigit = true) :
    letters.all isWordChar = true :=
  List.all_eq_true.2 fun c member => isWordChar_of_isDigit (List.all_eq_true.1 h c member)

theorem isWord_of_natOf? {letters : List Char} {n : Nat} (h : natOf? letters = some n) :
    isWord letters = true := by
  have digits := all_isWordChar_of_isDigit (all_isDigit_of_natOf? h)
  have nonempty : letters ≠ [] := by
    rintro rfl
    cases h
  simp [isWord, nonempty, digits]

theorem isWord_cons {c : Char} {letters : List Char} (first : isWordChar c = true)
    (rest : letters.all isWordChar = true) : isWord (c :: letters) = true := by
  simp [isWord, first, rest]

theorem all_isWordChar_of_isWord {letters : List Char} (h : isWord letters = true) :
    letters.all isWordChar = true := (Bool.and_eq_true _ _ ▸ h).2

theorem isWord_of_intOf? {letters : List Char} {n : Int} (h : intOf? letters = some n) :
    isWord letters = true := by
  unfold intOf? at h
  split at h
  next digits =>
    obtain ⟨_, natural, _⟩ := Option.map_eq_some_iff.1 h
    exact isWord_cons (by decide) (all_isWordChar_of_isWord (isWord_of_natOf? natural))
  next =>
    obtain ⟨_, natural, _⟩ := Option.map_eq_some_iff.1 h
    exact isWord_of_natOf? natural

theorem all_isWordChar_of_isExponent {letters : List Char} (h : isExponent letters = true) :
    letters.all isWordChar = true := by
  unfold isExponent at h
  split at h
  · rfl
  · next sign digits =>
    simp only [Bool.and_eq_true, Bool.or_eq_true, beq_iff_eq] at h
    rw [List.all_cons, List.all_cons, all_isWordChar_of_isDigit h.2]
    rcases h.1.1 with rfl | rfl <;> decide
  · cases h

theorem isWord_of_isPointed {letters : List Char} (h : isPointed letters = true) :
    isWord letters = true := by
  unfold isPointed at h
  split at h
  next rest split =>
    simp only [Bool.and_eq_true] at h
    have digits (cs : List Char) : (cs.takeWhile Char.isDigit).all isWordChar = true :=
      all_isWordChar_of_isDigit List.all_takeWhile
    have whole := List.takeWhile_append_dropWhile (p := Char.isDigit) (l := letters)
    have fraction := List.takeWhile_append_dropWhile (p := Char.isDigit) (l := rest)
    have all : letters.all isWordChar = true := by
      rw [← whole, split, ← fraction, List.all_append, List.all_cons, List.all_append, digits,
        digits, all_isWordChar_of_isExponent h.2]
      decide
    have nonempty : letters ≠ [] := by
      rintro rfl
      cases split
    simp [isWord, nonempty, all]
  next => cases h

theorem isWord_of_isUnsignedFloat {letters : List Char} (h : isUnsignedFloat letters = true) :
    isWord letters = true := by
  rcases Bool.or_eq_true _ _ ▸ h with name | pointed
  · rw [eq_of_beq name]
    decide
  · exact isWord_of_isPointed pointed

theorem isWord_of_isFloat {letters : List Char} (h : isFloat letters = true) :
    isWord letters = true := by
  unfold isFloat at h
  split at h
  next => exact isWord_cons (by decide) (all_isWordChar_of_isWord (isWord_of_isUnsignedFloat h))
  next =>
    rcases Bool.or_eq_true _ _ ▸ h with name | unsigned
    · rw [eq_of_beq name]
      decide
    · exact isWord_of_isUnsignedFloat unsigned

/-- What stands for a value can stand as a word. -/
theorem isWord_of_ofWord? {letters : List Char} {reading : Reading}
    (h : ofWord? letters = some reading) : isWord letters = true := by
  unfold ofWord? at h
  split at h
  next name =>
    rw [eq_of_beq name]
    decide
  next =>
    split at h
    next name =>
      rw [eq_of_beq name]
      decide
    next =>
      split at h
      next name =>
        rw [eq_of_beq name]
        decide
      next =>
        split at h
        next float => exact isWord_of_isFloat float
        next =>
          obtain ⟨_, spelled, _⟩ := Option.map_eq_some_iff.1 h
          exact isWord_of_intOf? spelled

end Reading

end PhpDecl
