import Mathlib.Computability.Language
import PhpDecl.Proofs.Reading.Rational
import PhpDecl.Proofs.Unfolding

/-!
# The literals of floats

The literal of a finite float is its short text rewritten: a point is put in where there is none,
and the exponent is written anew, behind an `E` and a sign and without zeros in front. The short
texts and the literals are told by patterns, so that nothing is assumed of how many digits a number
has; whatever the text, its literal is a float of the generated language and denotes the same
rational number (`Decimal.literal_exact`).
-/

namespace PhpDecl

namespace Decimal

open scoped Computability

variable {text : List Char} {decimal : Decimal}

/-! ## The patterns -/

/-- Digits, at least one of them. -/
def digitsForm : Language Char := {text | text ≠ [] ∧ text.all Char.isDigit = true}

/-- Digits without a zero in front, unless the number is zero. -/
def numberForm : Language Char :=
  {text | text ∈ digitsForm ∧ (text.head? = some '0' → text = ['0'])}

def signForm : Language Char := {['+']} + {['-']}

/-- The short text of a finite float. -/
def shortForm : Language Char :=
  (1 + {['-']}) * digitsForm * (1 + {['.']} * digitsForm) *
    (1 + {['e']} * ((1 + signForm) * digitsForm))

/-- A literal: a point between digits, and an exponent always with its sign. -/
def literalForm : Language Char :=
  (1 + {['-']}) * digitsForm * ({['.']} * digitsForm) *
    (1 + {['E']} * (signForm * numberForm))

/-- Digits around a point, on one side of it at least. -/
def pointForm : Language Char :=
  (1 + digitsForm) * ({['.']} * digitsForm) + digitsForm * ({['.']} * (1 + digitsForm))

/-- The floats of the generated language, with a minus as they stand in code: digits with a point,
or digits with an exponent, which may have a point as well. -/
def floatForm : Language Char :=
  (1 + {['-']}) * (pointForm +
    (digitsForm + pointForm) * (({['e']} + {['E']}) * ((1 + signForm) * digitsForm)))

theorem mem_digitsForm_iff :
    text ∈ digitsForm ↔ ∃ digits, digits ≠ [] ∧ Digit.chars digits = text := by
  constructor
  · rintro ⟨nonempty, all⟩
    exact ⟨text.map Digit.ofChar, mt List.map_eq_nil_iff.1 nonempty, Digit.chars_map_ofChar all⟩
  · rintro ⟨digits, nonempty, rfl⟩
    exact ⟨mt Digit.chars_eq_nil.1 nonempty, Digit.all_isDigit_chars digits⟩

theorem chars_mem_digitsForm {digits : List Digit} (nonempty : digits ≠ []) :
    Digit.chars digits ∈ digitsForm := mem_digitsForm_iff.2 ⟨digits, nonempty, rfl⟩

/-- What stands behind a character of its own. -/
theorem mem_singleton_mul_iff {c : Char} {form : Language Char} :
    text ∈ {[c]} * form ↔ ∃ rest ∈ form, c :: rest = text := by
  rw [Language.mem_mul]
  constructor
  · rintro ⟨_, rfl, rest, own, rfl⟩
    exact ⟨rest, own, rfl⟩
  · rintro ⟨rest, own, rfl⟩
    exact ⟨[c], rfl, rest, own, rfl⟩

theorem mem_minus_iff :
    text ∈ (1 + {['-']} : Language Char) ↔
      ∃ negative : Bool, (if negative then ['-'] else []) = text := by
  rw [Language.mem_add, Language.mem_one, Bool.exists_bool]
  exact or_congr eq_comm eq_comm

theorem mem_fraction_iff :
    text ∈ 1 + {['.']} * digitsForm ↔ ∃ fraction : Option (List Digit), fraction ≠ some [] ∧
      (fraction.elim [] fun digits => '.' :: Digit.chars digits) = text := by
  rw [Language.mem_add, Language.mem_one, mem_singleton_mul_iff]
  constructor
  · rintro (rfl | ⟨_, own, rfl⟩)
    · exact ⟨none, Option.some_ne_none _ |>.symm, rfl⟩
    · obtain ⟨digits, nonempty, rfl⟩ := mem_digitsForm_iff.1 own
      exact ⟨some digits, fun empty => nonempty (Option.some.inj empty), rfl⟩
  · rintro ⟨fraction, nonempty, rfl⟩
    cases fraction with
    | none => exact .inl rfl
    | some digits =>
        exact .inr ⟨_, chars_mem_digitsForm fun empty => nonempty (congrArg _ empty), rfl⟩

theorem mem_exponent_iff :
    text ∈ (1 + signForm) * digitsForm ↔
      ∃ exponent : Exponent, exponent.digits ≠ [] ∧ exponent.behindMark = text := by
  rw [Language.mem_mul]
  constructor
  · rintro ⟨_, sign, _, own, rfl⟩
    obtain ⟨digits, nonempty, rfl⟩ := mem_digitsForm_iff.1 own
    rcases sign with rfl | rfl | rfl
    · exact ⟨⟨none, digits⟩, nonempty, rfl⟩
    · exact ⟨⟨some false, digits⟩, nonempty, rfl⟩
    · exact ⟨⟨some true, digits⟩, nonempty, rfl⟩
  · rintro ⟨⟨sign, digits⟩, nonempty, rfl⟩
    refine ⟨_, ?_, _, chars_mem_digitsForm nonempty, rfl⟩
    cases sign with
    | none => exact .inl rfl
    | some negative =>
        cases negative
        · exact .inr (.inl rfl)
        · exact .inr (.inr rfl)

/-- The short texts are those of the decimals that have digits wherever these should stand. -/
theorem mem_shortForm_iff :
    text ∈ shortForm ↔ ∃ decimal : Decimal, decimal.Written ∧ decimal.text = text := by
  simp only [text_eq]
  constructor
  · rintro ⟨_, ⟨_, ⟨_, minus, _, front, rfl⟩, _, behind, rfl⟩, _, last, rfl⟩
    obtain ⟨negative, rfl⟩ := mem_minus_iff.1 minus
    obtain ⟨whole, nonempty, rfl⟩ := mem_digitsForm_iff.1 front
    obtain ⟨fraction, other, rfl⟩ := mem_fraction_iff.1 behind
    rcases last with rfl | last
    · exact ⟨⟨negative, whole, fraction, none⟩, ⟨nonempty, other, by simp⟩, rfl⟩
    · obtain ⟨_, own, rfl⟩ := mem_singleton_mul_iff.1 last
      obtain ⟨exponent, digits, rfl⟩ := mem_exponent_iff.1 own
      exact ⟨⟨negative, whole, fraction, some exponent⟩, ⟨nonempty, other, by simpa using digits⟩,
        rfl⟩
  · rintro ⟨⟨negative, whole, fraction, exponent⟩, written, rfl⟩
    refine Language.append_mem_mul (Language.append_mem_mul (Language.append_mem_mul
      (mem_minus_iff.2 ⟨negative, rfl⟩) (chars_mem_digitsForm written.whole))
        (mem_fraction_iff.2 ⟨fraction, written.fraction, rfl⟩)) ?_
    cases exponent with
    | none => exact .inl rfl
    | some exponent =>
        exact .inr (mem_singleton_mul_iff.2
          ⟨_, mem_exponent_iff.2 ⟨exponent, written.exponent exponent rfl, rfl⟩, rfl⟩)

theorem sign_mem_signForm (negative : Bool) : [if negative then '-' else '+'] ∈ signForm := by
  cases negative
  · exact .inl rfl
  · exact .inr rfl

theorem significant_mem_numberForm (digits : List Digit) :
    Digit.chars (Exponent.significant digits) ∈ numberForm := by
  refine ⟨chars_mem_digitsForm (Exponent.significant_ne_nil digits), ?_⟩
  have stops := List.head?_dropWhile_not (· == Digit.zero) digits
  rw [Exponent.significant]
  cases kept : digits.dropWhile (· == Digit.zero) with
  | nil => exact fun _ => rfl
  | cons first others =>
      rw [kept] at stops
      intro zero
      rw [Digit.char_eq_zero first (Option.some.inj zero)] at stops
      have same : (Digit.zero == Digit.zero) = false := stops
      cases same

theorem literal_mem_literalForm (written : decimal.Written) : decimal.literal ∈ literalForm := by
  rw [literal_eq]
  obtain ⟨negative, whole, fraction, exponent⟩ := decimal
  have behind : fraction.getD [Digit.zero] ≠ [] := fun empty =>
    written.pointed.fraction (congrArg some empty)
  refine Language.append_mem_mul (Language.append_mem_mul (Language.append_mem_mul
    (mem_minus_iff.2 ⟨negative, rfl⟩) (chars_mem_digitsForm written.whole))
      (mem_singleton_mul_iff.2 ⟨_, chars_mem_digitsForm behind, rfl⟩)) ?_
  cases exponent with
  | none => exact .inl rfl
  | some exponent =>
      exact .inr (mem_singleton_mul_iff.2
        ⟨_, Language.append_mem_mul (sign_mem_signForm (exponent.sign == some true))
          (significant_mem_numberForm exponent.digits), rfl⟩)

theorem point_mem_literal (decimal : Decimal) : '.' ∈ decimal.literal :=
  List.mem_append_left _ (List.mem_append_right _ (List.mem_cons_self ..))

/-- Literals are floats of the generated language. -/
theorem mem_floatForm_of_mem_literalForm (form : text ∈ literalForm) : text ∈ floatForm := by
  obtain ⟨_, ⟨_, ⟨sign, minus, whole, front, rfl⟩, fraction, behind, rfl⟩, _, last, rfl⟩ := form
  have point : whole ++ fraction ∈ pointForm := .inl (Language.append_mem_mul (.inr front) behind)
  rcases last with rfl | ⟨mark, marks, _, ⟨own, signed, digits, number, rfl⟩, rfl⟩
  · have whole : sign ++ (whole ++ fraction) ∈ floatForm :=
      Language.append_mem_mul minus (.inl point)
    simpa using whole
  · have exponent : mark ++ (own ++ digits) ∈
        ({['e']} + {['E']}) * ((1 + signForm) * digitsForm) :=
      Language.append_mem_mul (.inr marks) (Language.append_mem_mul (.inr signed) number.1)
    have all : sign ++ (whole ++ fraction ++ (mark ++ (own ++ digits))) ∈ floatForm :=
      Language.append_mem_mul minus (.inr (Language.append_mem_mul (.inr point) exponent))
    simpa using all

/-! ## The rewriting of texts -/

/-- The mantissa, with a point. -/
def withPoint (mantissa : List Char) : List Char :=
  if mantissa.contains '.' then mantissa else mantissa ++ ".0".toList

/-- The exponent behind an `E`: its sign, and its digits without the zeros in front. -/
def exponentLiteral (text : List Char) : List Char :=
  let kept := (text.dropWhile fun c => c == '+' || c == '-').dropWhile (· == '0')
  'E' :: (if text.head? == some '-' then '-' else '+') :: if kept.isEmpty then ['0'] else kept

/-- The literal of a short text: what stands on either side of the mark is rewritten on its own. -/
def literalOf? (text : List Char) : Option (List Char) :=
  match text.splitOn 'e' with
  | [mantissa] => some (withPoint mantissa)
  | [mantissa, exponent] => some (withPoint mantissa ++ exponentLiteral exponent)
  | _ => none

theorem e_not_mem_mantissa (decimal : Decimal) : 'e' ∉ decimal.mantissa := by
  have absent (digits : List Digit) : 'e' ∉ Digit.chars digits :=
    Text.not_mem_of_all (Digit.all_isDigit_chars digits) rfl
  obtain ⟨negative, whole, fraction, exponent⟩ := decimal
  cases negative <;> cases fraction <;> simp [mantissa, signText, absent]

theorem e_not_mem_behindMark (exponent : Exponent) : 'e' ∉ exponent.behindMark := by
  have absent (digits : List Digit) : 'e' ∉ Digit.chars digits :=
    Text.not_mem_of_all (Digit.all_isDigit_chars digits) rfl
  obtain ⟨_ | _ | _, digits⟩ := exponent <;> simp [Exponent.behindMark, absent]

theorem contains_point_mantissa (decimal : Decimal) :
    decimal.mantissa.contains '.' = decimal.fraction.isSome := by
  have absent (digits : List Digit) : '.' ∉ Digit.chars digits :=
    Text.not_mem_of_all (Digit.all_isDigit_chars digits) rfl
  obtain ⟨negative, whole, fraction, exponent⟩ := decimal
  cases negative <;> cases fraction <;> simp [mantissa, signText, absent]

theorem withPoint_mantissa (decimal : Decimal) :
    withPoint decimal.mantissa = decimal.pointed.mantissa := by
  rw [withPoint, decimal.contains_point_mantissa]
  obtain ⟨negative, whole, fraction, exponent⟩ := decimal
  cases fraction with
  | none =>
      refine (if_neg Bool.false_ne_true).trans ?_
      rw [mantissa, mantissa, pointed, Option.elim_none, List.append_nil]
      rfl
  | some digits => rfl

/-- Without its sign, an exponent is its digits. -/
theorem dropWhile_behindMark (exponent : Exponent) :
    (exponent.behindMark.dropWhile fun c => c == '+' || c == '-') =
      Digit.chars exponent.digits := by
  have unsigned : ∀ digit : Digit, (digit.char == '+' || digit.char == '-') = false := by decide
  have own (digits : List Digit) :
      ((Digit.chars digits).dropWhile fun c => c == '+' || c == '-') = Digit.chars digits := by
    cases digits with
    | nil => rfl
    | cons first others => exact List.dropWhile_cons_of_neg (by simp [unsigned])
  obtain ⟨_ | _ | _, digits⟩ := exponent <;> exact own digits

theorem head?_behindMark (exponent : Exponent) :
    (exponent.behindMark.head? == some '-') = (exponent.sign == some true) := by
  have unsigned (digits : List Digit) : ((Digit.chars digits).head? == some '-') = false := by
    cases digits with
    | nil => rfl
    | cons first others => simp [Digit.chars, Digit.char_ne (c := '-') rfl]
  obtain ⟨_ | _ | _, digits⟩ := exponent
  · exact unsigned digits
  · rfl
  · rfl

theorem exponentLiteral_behindMark (exponent : Exponent) :
    exponentLiteral exponent.behindMark = exponent.literal := by
  have zeros : ((· == '0') ∘ Digit.char) = (· == Digit.zero) := funext (by decide)
  rw [exponentLiteral, dropWhile_behindMark, head?_behindMark, Exponent.literal,
    Exponent.significant, Digit.chars, List.dropWhile_map, zeros]
  cases exponent.digits.dropWhile (· == Digit.zero) <;> rfl

/-- Rewriting the short text of a decimal gives its literal. -/
theorem literalOf?_text (decimal : Decimal) : literalOf? decimal.text = some decimal.literal := by
  have unmarked := decimal.e_not_mem_mantissa
  rw [text_eq, literal_eq, literalOf?, textWith, textWith, ← withPoint_mantissa, pointed]
  cases decimal.exponent with
  | none =>
      rw [Option.elim_none, List.append_nil, List.splitOn_eq_singleton unmarked, Option.map_none,
        Option.elim_none, List.append_nil]
  | some exponent =>
      rw [Option.elim_some, List.splitOn_append_cons_self_of_not_mem unmarked,
        List.splitOn_eq_singleton (e_not_mem_behindMark exponent)]
      exact congrArg (some <| withPoint decimal.mantissa ++ ·) (exponentLiteral_behindMark exponent)

end Decimal

/-! ## Doubles -/

namespace Double

open Decimal

theorem exponentOf_digits_ne_nil (magnitude : Int) : (exponentOf magnitude).digits ≠ [] := by
  unfold exponentOf
  simp only
  split
  · exact List.cons_ne_nil _ _
  · exact digitsOf_ne_nil _

theorem layOut_written (negative : Bool) {digits : List Digit} (nonempty : digits ≠ [])
    (magnitude : Int) : (layOut negative digits magnitude).Written where
  whole := layOut_whole_ne_nil negative nonempty magnitude
  fraction := layOut_fraction_ne_nil negative nonempty magnitude
  exponent exponent member := by
    unfold layOut at member
    split at member
    · cases member
      exact exponentOf_digits_ne_nil magnitude
    · split at member <;> cases member

/-- The bits of the exponent are not all set: the double is not infinite, and it is a number. -/
def IsFinite (x : Double) : Prop :=
  x.bits.toNat / Nat.pow 2 52 % Nat.pow 2 11 ≠ Nat.pow 2 11 - 1

theorem meaning_of_isFinite {x : Double} (finite : x.IsFinite) :
    ∃ negative, x.meaning = .zero negative ∨
      ∃ magnitude, x.meaning = .finite negative magnitude := by
  unfold meaning
  simp only
  rw [if_neg (mt eq_of_beq finite)]
  split
  · split
    · exact ⟨_, .inl rfl⟩
    · exact ⟨_, .inr ⟨_, rfl⟩⟩
  · exact ⟨_, .inr ⟨_, rfl⟩⟩

/-- A finite double is shown, and written, as a decimal. -/
theorem exists_decimal {x : Double} (finite : x.IsFinite) :
    ∃ decimal : Decimal,
      decimal.Written ∧ x.shown = decimal.text ∧ x.literal = decimal.literal := by
  obtain ⟨negative, zero | ⟨magnitude, positive⟩⟩ := meaning_of_isFinite finite
  · refine ⟨⟨negative, [Digit.zero], some [Digit.zero], none⟩, ⟨by simp, by simp, by simp⟩, ?_, ?_⟩
    · rw [shown, decimal?, zero]
      rfl
    · rw [literal, decimal?, zero]
      rfl
  · have digits := trimZeros_digitsOf_ne_nil (BinaryFraction.shortest_pos (mantissa_pos positive))
    refine ⟨_, layOut_written negative digits
      (magnitude.shortest.2 + (digitsOf magnitude.shortest.1).length - 1), ?_, ?_⟩
    · rw [shown, decimal?, positive]
      rfl
    · rw [literal, decimal?, positive]
      rfl

end Double

namespace Decimal

/-- Literals of floats are exact. Whatever the short text of a finite float, its literal is what
rewriting that text gives; it is a float of the generated language, never an integer, since it holds
a point; its exponent, if it has one, stands behind an `E` and a sign and has no zero in front that
could be left out; and it denotes the rational number that the text denotes. Every text of the
pattern is the short text of a decimal, and every finite double is shown and dumped as a decimal
with such a text. -/
theorem literal_exact :
    (∀ decimal : Decimal, decimal.text ∈ shortForm →
      literalOf? decimal.text = some decimal.literal ∧
        decimal.literal ∈ literalForm ∧ decimal.literal ∈ floatForm ∧ '.' ∈ decimal.literal ∧
        Reading.ofWord? decimal.literal = some (.float decimal.literal) ∧
        ∃ q, rational? decimal.text = some q ∧ rational? decimal.literal = some q) ∧
      (∀ text ∈ shortForm, ∃ decimal : Decimal, decimal.text = text) ∧
      ∀ x : Double, x.IsFinite → ∃ decimal : Decimal, decimal.text ∈ shortForm ∧
        x.shown = decimal.text ∧
          ∀ (graph : Graph) layout, graph.dump layout (.atom (.float x)) = .ok decimal.literal := by
  refine ⟨fun decimal form => ?_, fun text form => ?_, fun x finite => ?_⟩
  · obtain ⟨own, written, same⟩ := mem_shortForm_iff.1 form
    have rewritten := literalOf?_text decimal
    have sameLiteral : own.literal = decimal.literal := by
      rw [← same, literalOf?_text] at rewritten
      exact Option.some.inj rewritten
    have denoted : rational? decimal.text = some own.value := by
      rw [← same, text_eq, rational?, ofText?_textWith (.inl rfl) written, Option.map_some]
    have kept : rational? own.literal = some own.value := by
      rw [literal_eq, rational?, ofText?_textWith (.inr rfl) written.pointed, Option.map_some,
        value_pointed]
    have form := literal_mem_literalForm written
    rw [← sameLiteral] at rewritten ⊢
    exact ⟨rewritten, form, mem_floatForm_of_mem_literalForm form, point_mem_literal own,
      Reading.ofWord?_of_isFloat (Reading.isFloat_decimalLiteral written.whole written.fraction),
      own.value, denoted, kept⟩
  · obtain ⟨decimal, -, same⟩ := mem_shortForm_iff.1 form
    exact ⟨decimal, same⟩
  · obtain ⟨decimal, written, shown, literal⟩ := x.exists_decimal finite
    refine ⟨decimal, mem_shortForm_iff.2 ⟨decimal, written, rfl⟩, shown, fun graph layout => ?_⟩
    rw [← literal]
    rfl

/-- A negative number with a zero in front of its exponent, and no point. -/
def smallNumber : Decimal :=
  ⟨true, "1".toList.map Digit.ofChar, none, some ⟨some true, "07".toList.map Digit.ofChar⟩⟩

/-- It is shown as `-1e-07` and written as `-1.0E-7`, and both are minus a ten-millionth. The double
with the bits of one is finite. -/
theorem literal_exact_smallNumber :
    smallNumber.text ∈ shortForm ∧ smallNumber.text = "-1e-07".toList ∧
      literalOf? "-1e-07".toList = some "-1.0E-7".toList ∧ "-1.0E-7".toList ∈ literalForm ∧
      rational? "-1e-07".toList = some (-1 / 10 ^ 7) ∧
      rational? "-1.0E-7".toList = some (-1 / 10 ^ 7) ∧
      Double.IsFinite ⟨0x3ff0000000000000⟩ ∧
      ∃ decimal : Decimal, decimal.text ∈ shortForm ∧
        Double.shown ⟨0x3ff0000000000000⟩ = decimal.text := by
  obtain ⟨exact, -, doubles⟩ := literal_exact
  have written : smallNumber.Written := by constructor <;> simp [smallNumber]
  have form : smallNumber.text ∈ shortForm := mem_shortForm_iff.2 ⟨_, written, rfl⟩
  obtain ⟨rewritten, literal, -, -, -, q, denoted, kept⟩ := exact smallNumber form
  have finite : Double.IsFinite ⟨0x3ff0000000000000⟩ := by
    rw [Double.IsFinite]
    decide
  have value : q = -1 / 10 ^ 7 := by
    have read : rational? smallNumber.text = some smallNumber.value := rfl
    have digits : Digit.number (smallNumber.whole ++ smallNumber.fraction.getD []) = 1 := rfl
    have power : smallNumber.exponent.elim 0 Exponent.power -
        ((smallNumber.fraction.getD []).length : Int) = -(7 : Nat) := rfl
    rw [← Option.some.inj (read.symm.trans denoted), Decimal.value, digits, power, zpow_neg,
      zpow_natCast, Nat.cast_one, mul_one, div_eq_mul_inv]
    rfl
  obtain ⟨one, shown, same, -⟩ := doubles _ finite
  exact ⟨form, rfl, rewritten, literal, value ▸ denoted, value ▸ kept, finite, one, shown, same⟩

end Decimal

end PhpDecl
