import PhpDecl.Proofs.Reading
import PhpDecl.Text.Quoted

/-!
# Reading quoted strings

The reader undoes the quoting of every text, in single quotes and in double quotes.
-/

namespace PhpDecl.Reading

open Text

-- Here the reader is run on the texts that the quoting gives.
attribute [local simp] tokens inSingle inDouble inCodePoint

/-! ## Single quotes -/

/-- A character that needs no escape is read as itself. -/
theorem inSingle_cons {c : Char} (rest : List Char) (quote : c ≠ '\'') (slash : c ≠ '\\') :
    inSingle (c :: rest) = (inSingle rest).map (Token.quote c) := by
  rw [inSingle]
  · exact quote
  · intro rest h
    exact absurd h slash
  · intro rest h
    exact absurd h slash

/-- A backslash is read as itself in front of a character that it does not escape. -/
theorem inSingle_slash {c : Char} (rest : List Char) (quote : c ≠ '\'') (slash : c ≠ '\\') :
    inSingle ('\\' :: c :: rest) = (inSingle (c :: rest)).map (Token.quote '\\') := by
  rw [inSingle]
  · decide
  · intro others _ h
    exact quote (List.cons.inj h).1
  · intro others _ h
    exact slash (List.cons.inj h).1

theorem inSingle_single (content rest : List Char) :
    inSingle (Quoted.single content ++ '\'' :: rest) =
      (tokens rest).map (.text content :: ·) := by
  fun_induction Quoted.single content with
  | case1 => simp
  | case2 content ih => simp [ih, Function.comp_def, Token.quote]
  | case3 => simp [Function.comp_def, Token.quote]
  | case4 next others escapes ih => simp [ih, Function.comp_def, Token.quote]
  | case5 next others stays ih =>
      simp only [Bool.or_eq_true, beq_iff_eq, not_or] at stays
      obtain ⟨quote, slash⟩ := stays
      -- The backslash is not escaped, so what follows it has to be written as it is.
      have written : Quoted.single (next :: others) = next :: Quoted.single others := by
        rw [Quoted.single] <;> simpa
      rw [written] at ih ⊢
      rw [List.cons_append, List.cons_append, inSingle_slash _ quote slash, ← List.cons_append, ih]
      simp [Function.comp_def, Token.quote]
  | case6 c content quote slash ih =>
      rw [List.cons_append, inSingle_cons _ quote slash, ih]
      simp [Function.comp_def, Token.quote]

/-! ## Double quotes -/

theorem hexValue?_digitChar : ∀ d < 16, hexValue? d.digitChar = some d := by decide

theorem charBelow?_toNat {bound : Nat} {c : Char} (below : c.toNat < bound) :
    charBelow? bound c.toNat = some c := by
  rw [charBelow?, if_pos ⟨below, c.valid⟩, Char.ofNat_toNat]

/-- A byte is written as its two digits. -/
theorem hexByte_eq {n : Nat} (byte : n < 256) :
    Quoted.hexByte n = [(n / 16).digitChar, (n % 16).digitChar] := by
  rw [Quoted.hexByte, Quoted.hex, Quoted.hex, Nat.toDigits_of_lt_base (by omega),
    Nat.toDigits_of_lt_base (by omega), List.singleton_append]

/-- A number of two digits is written as these. -/
theorem hex_eq {n : Nat} (low : 16 ≤ n) (high : n < 256) :
    Quoted.hex n = [(n / 16).digitChar, (n % 16).digitChar] := by
  rw [Quoted.hex, Nat.toDigits_of_base_le (by decide) low, Nat.toDigits_of_lt_base (by omega),
    List.singleton_append]

/-- A character that needs no escape is read as itself. -/
theorem inDouble_cons {c : Char} (rest : List Char) (quote : c ≠ '"') (dollar : c ≠ '$')
    (slash : c ≠ '\\') : inDouble (c :: rest) = (inDouble rest).map (Token.quote c) := by
  rw [inDouble] <;> simp_all

/-- An escaped byte is read as its character. -/
theorem inDouble_byte {c : Char} (rest : List Char) (ascii : c.toNat < 0x80) :
    inDouble ('\\' :: 'x' :: Quoted.hexByte c.toNat ++ rest) =
      (inDouble rest).map (Token.quote c) := by
  rw [hexByte_eq (by omega)]
  have value : 16 * (c.toNat / 16) + c.toNat % 16 = c.toNat := Nat.div_add_mod ..
  simp only [List.cons_append, List.nil_append, inDouble]
  rw [hexValue?_digitChar _ (by omega), hexValue?_digitChar _ (by omega)]
  simp only [Option.bind_eq_bind, Option.bind_some, value, charBelow?_toNat ascii]
  cases inDouble rest <;> rfl

/-- An escaped code point of two digits is read as its character. -/
theorem inDouble_codePoint {c : Char} (rest : List Char) (low : 0x80 ≤ c.toNat)
    (high : c.toNat < 0xa0) :
    inDouble ('\\' :: 'u' :: '\x7b' :: Quoted.hex c.toNat ++ '\x7d' :: rest) =
      (inDouble rest).map (Token.quote c) := by
  rw [hex_eq (by omega) (by omega)]
  have value : 16 * (c.toNat / 16) + c.toNat % 16 = c.toNat := Nat.div_add_mod ..
  simp only [List.cons_append, List.nil_append, inDouble]
  rw [hexValue?_digitChar _ (by omega)]
  simp only [Option.bind_eq_bind, Option.bind_some]
  rw [inCodePoint, hexValue?_digitChar _ (by omega)]
  · simp only [Option.bind_eq_bind, Option.bind_some, value]
    rw [inCodePoint, charBelow?_toNat (by omega)]
    cases inDouble rest <;> rfl
  · intro h
    have digit := hexValue?_digitChar (c.toNat % 16) (by omega)
    have none : hexValue? '\x7d' = none := by decide
    rw [h, none] at digit
    cases digit

/-- The reader undoes the escape of a character in double quotes. -/
theorem inDouble_escaped (c : Char) (rest : List Char) :
    inDouble (Quoted.escaped c ++ rest) = (inDouble rest).map (Token.quote c) := by
  -- One case for each branch of the escape, in its order.
  unfold Quoted.escaped
  split
  next slash => simp_all
  split
  next => simp_all
  split
  next => simp_all
  split
  next => simp_all
  split
  next dollar => simp_all
  split
  next quote => simp_all
  split
  next byte =>
    refine inDouble_byte rest ?_
    simp only [Bool.or_eq_true, decide_eq_true_eq, beq_iff_eq] at byte
    omega
  split
  next point =>
    simp only [Bool.and_eq_true, decide_eq_true_eq] at point
    simpa using inDouble_codePoint rest point.1 point.2
  next slash _ _ _ dollar quote _ _ =>
    exact inDouble_cons rest (by simpa using quote) (by simpa using dollar) (by simpa using slash)

theorem inDouble_flatMap_escaped (content rest : List Char) :
    inDouble (content.flatMap Quoted.escaped ++ '"' :: rest) =
      (tokens rest).map (.text content :: ·) := by
  induction content with
  | nil => simp
  | cons c content ih =>
      rw [List.flatMap_cons, List.append_assoc, inDouble_escaped, ih]
      simp [Function.comp_def, Token.quote]

/-- The reader undoes the quoting of every text. -/
theorem tokens_encode (content rest : List Char) :
    tokens (Quoted.encode content ++ rest) = (tokens rest).map (.text content :: ·) := by
  unfold Quoted.encode
  split
  · simpa using inSingle_single content rest
  · simpa using inDouble_flatMap_escaped content rest

end PhpDecl.Reading
