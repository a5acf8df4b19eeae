import Mathlib.Computability.Language
import PhpDecl.Proofs.Literals
import PhpDecl.Value

/-!
# The grammar of qualified names

Names are matched in one pass. What the pass accepts can be told in two other ways: as the texts
that a pattern describes, a run of identifiers with a separator in front of each but the first
(`Name.mem_namespaceForm_iff`), and as the texts that fall into identifiers when they are cut at
every separator (`Name.isNamespaceName_iff_splitOn`). `Value.isNamespaceName_grammar` says so of the
values that a caller hands in.
-/

namespace PhpDecl

namespace Name

open scoped Computability

/-! ## Identifiers -/

/-- Letters, the underscore, and the characters from U+007F up. -/
def OpensName (c : Char) : Prop := c.isAlpha = true ∨ c = '_' ∨ 0x7f ≤ c.toNat

/-- The text is an identifier. -/
def Spelled (text : List Char) : Prop :=
  ∃ first rest, text = first :: rest ∧ OpensName first ∧
    ∀ c ∈ rest, OpensName c ∨ c.isDigit = true

theorem isStart_iff (c : Char) : isStart c = true ↔ OpensName c := by
  rw [OpensName]
  by_cases high : 0x7f ≤ c.toNat
  · simp [isStart, high]
  · have low := Text.forall_low
      (P := fun c => isStart c = true ↔ c.isAlpha = true ∨ c = '_')
      (by decide +kernel : ∀ n < 0x7f, isStart (Char.ofNat n) = true ↔
        (Char.ofNat n).isAlpha = true ∨ Char.ofNat n = '_') (Nat.lt_of_not_le high)
    rw [low, or_iff_left high]

theorem isRest_iff (c : Char) : isRest c = true ↔ OpensName c ∨ c.isDigit = true := by
  rw [isRest, Bool.or_eq_true, isStart_iff]
  rfl

theorem isIdentifier_iff_spelled (text : List Char) :
    isIdentifier text = true ↔ Spelled text := by
  cases text with
  | nil => simp [isIdentifier, Spelled]
  | cons first rest =>
      simp only [isIdentifier, Bool.and_eq_true, isStart_iff, List.all_eq_true, isRest_iff]
      constructor
      · rintro ⟨opens, others⟩
        exact ⟨first, rest, rfl, opens, others⟩
      · rintro ⟨_, _, same, opens, others⟩
        cases same
        exact ⟨opens, others⟩

theorem separator_not_mem {text : List Char} (valid : isIdentifier text = true) :
    separator ∉ text := by
  intro member
  have rest := isRest_of_mem valid member
  rw [isRest_separator] at rest
  cases rest

/-! ## Segments -/

theorem segments_eq_splitOn (text : List Char) : segments text = text.splitOn separator := by
  induction text with
  | nil => rfl
  | cons c text ih =>
      obtain ⟨part, parts, split⟩ :=
        List.exists_cons_of_ne_nil (List.splitOn_ne_nil separator text)
      rw [segments, List.splitOn_cons_eq_if_modifyHead, ih, split]
      rfl

/-- The text without one separator in front, where one is allowed. -/
def unprefixed (allowLeading : Bool) : List Char → List Char
  | [] => []
  | c :: rest => if allowLeading && c == separator then rest else c :: rest

/-- The matcher accepts the texts whose segments, behind a separator that is allowed in front, are
identifiers. -/
theorem isNamespaceName_iff_splitOn (allowLeading : Bool) (text : List Char) :
    isNamespaceName allowLeading text = true ↔
      ∀ part ∈ (unprefixed allowLeading text).splitOn separator, isIdentifier part = true := by
  rw [← segments_eq_splitOn, ← isQualified_iff_segments, isNamespaceName]
  cases text with
  | nil => cases allowLeading <;> rfl
  | cons c rest =>
      cases allowLeading with
      | false => rfl
      | true =>
          rw [if_pos rfl, isTypeName, unprefixed, Bool.true_and]
          split <;> rfl

/-- The first of some parts, and the others each behind a separator. -/
theorem intercalate_cons (first : List Char) (others : List (List Char)) :
    [separator].intercalate (first :: others) = first ++ others.flatMap (separator :: ·) := by
  induction others generalizing first with
  | nil => simp [List.intercalate]
  | cons second others ih =>
      rw [List.flatMap_cons, List.cons_append, ← ih second]
      simp [List.intercalate]

theorem splitOn_intercalate_of_identifiers {parts : List (List Char)} (some : parts ≠ [])
    (each : ∀ part ∈ parts, isIdentifier part = true) :
    ([separator].intercalate parts).splitOn separator = parts :=
  List.splitOn_intercalate separator (fun part member => separator_not_mem (each part member)) some

/-- Identifiers joined by separators are accepted. -/
theorem isNamespaceName_intercalate (allowLeading : Bool) {parts : List (List Char)}
    (some : parts ≠ []) (each : ∀ part ∈ parts, isIdentifier part = true) :
    isNamespaceName allowLeading ([separator].intercalate parts) = true := by
  have unchanged : unprefixed allowLeading ([separator].intercalate parts) =
      [separator].intercalate parts := by
    obtain ⟨first, others, rfl⟩ := List.exists_cons_of_ne_nil some
    obtain ⟨c, rest, rfl, -⟩ := (isIdentifier_iff_spelled first).1 (each first (.head _))
    have other : c ≠ separator := fun same =>
      separator_not_mem (each _ (.head _)) (same ▸ .head _)
    rw [intercalate_cons, List.cons_append, unprefixed, if_neg (by simp [other])]
  rw [isNamespaceName_iff_splitOn, unchanged, splitOn_intercalate_of_identifiers some each]
  exact each

/-- Identifiers are the names without separators. -/
theorem isIdentifier_iff_isNamespaceName (allowLeading : Bool) (text : List Char) :
    isIdentifier text = true ↔
      isNamespaceName allowLeading text = true ∧ separator ∉ text := by
  have alone (absent : separator ∉ text) :
      (unprefixed allowLeading text).splitOn separator = [text] := by
    rw [← List.splitOn_eq_singleton absent]
    cases text with
    | nil => rfl
    | cons c rest =>
        have other : c ≠ separator := fun same => absent (same ▸ .head _)
        rw [unprefixed, if_neg (by simp [other])]
  rw [isNamespaceName_iff_splitOn]
  constructor
  · intro valid
    rw [alone (separator_not_mem valid), List.forall_mem_singleton]
    exact ⟨valid, separator_not_mem valid⟩
  · rintro ⟨each, absent⟩
    rwa [alone absent, List.forall_mem_singleton] at each

/-! ## The pattern -/

/-- The texts of one character that satisfies a condition. -/
def charForm (p : Char → Prop) : Language Char := {text | ∃ c, text = [c] ∧ p c}

def identifierForm : Language Char :=
  charForm OpensName * (charForm fun c => OpensName c ∨ c.isDigit = true)∗

def qualifiedForm : Language Char := identifierForm * ({[separator]} * identifierForm)∗

/-- A qualified name, and where one is allowed, a separator in front or none. -/
def namespaceForm (allowLeading : Bool) : Language Char :=
  (if allowLeading then 1 + {[separator]} else 1) * qualifiedForm

theorem mem_kstar_charForm (p : Char → Prop) (text : List Char) :
    text ∈ (charForm p)∗ ↔ ∀ c ∈ text, p c := by
  rw [Language.mem_kstar]
  constructor
  · rintro ⟨pieces, rfl, each⟩ c member
    obtain ⟨piece, listed, inside⟩ := List.mem_flatten.1 member
    obtain ⟨d, rfl, own⟩ := each piece listed
    rwa [List.mem_singleton.1 inside]
  · intro each
    refine ⟨text.map fun c => [c], ?_, ?_⟩
    · rw [← List.flatMap_def, List.flatMap_singleton']
    · intro piece member
      obtain ⟨c, inside, rfl⟩ := List.mem_map.1 member
      exact ⟨c, rfl, each c inside⟩

theorem mem_identifierForm_iff (text : List Char) :
    text ∈ identifierForm ↔ isIdentifier text = true := by
  rw [isIdentifier_iff_spelled, identifierForm, Language.mem_mul]
  constructor
  · rintro ⟨_, ⟨c, rfl, opens⟩, rest, others, rfl⟩
    exact ⟨c, rest, rfl, opens, (mem_kstar_charForm _ rest).1 others⟩
  · rintro ⟨c, rest, rfl, opens, others⟩
    exact ⟨[c], ⟨c, rfl, opens⟩, rest, (mem_kstar_charForm _ rest).2 others, rfl⟩

/-- Repeating a separator and a text of a form gives several texts of the form, each behind a
separator. -/
theorem mem_kstar_separated (form : Language Char) (text : List Char) :
    text ∈ ({[separator]} * form)∗ ↔
      ∃ parts : List (List Char), (∀ part ∈ parts, part ∈ form) ∧
        text = parts.flatMap (separator :: ·) := by
  rw [Language.mem_kstar]
  constructor
  · rintro ⟨pieces, rfl, each⟩
    induction pieces with
    | nil => exact ⟨[], List.forall_mem_nil _, rfl⟩
    | cons piece pieces ih =>
        rw [List.forall_mem_cons] at each
        obtain ⟨_, rfl, part, own, rfl⟩ := Language.mem_mul.1 each.1
        obtain ⟨parts, others, same⟩ := ih each.2
        exact ⟨part :: parts, List.forall_mem_cons.2 ⟨own, others⟩, by
          rw [List.flatten_cons, same, List.flatMap_cons, List.singleton_append]⟩
  · rintro ⟨parts, each, rfl⟩
    refine ⟨parts.map (separator :: ·), List.flatMap_def .., fun piece member => ?_⟩
    obtain ⟨part, listed, rfl⟩ := List.mem_map.1 member
    exact Language.mem_mul.2 ⟨[separator], rfl, part, each part listed, rfl⟩

theorem mem_qualifiedForm_iff (text : List Char) :
    text ∈ qualifiedForm ↔ ∀ part ∈ text.splitOn separator, isIdentifier part = true := by
  rw [qualifiedForm, Language.mem_mul]
  constructor
  · rintro ⟨first, opens, rest, repeated, rfl⟩
    obtain ⟨others, each, rfl⟩ := (mem_kstar_separated _ rest).1 repeated
    have all : ∀ part ∈ first :: others, isIdentifier part = true := fun part member =>
      (mem_identifierForm_iff part).1 (List.forall_mem_cons.2 ⟨opens, each⟩ part member)
    rwa [← intercalate_cons, splitOn_intercalate_of_identifiers (List.cons_ne_nil _ _) all]
  · intro all
    obtain ⟨first, others, split⟩ :=
      List.exists_cons_of_ne_nil (List.splitOn_ne_nil separator text)
    have whole : [separator].intercalate (text.splitOn separator) = text :=
      List.intercalate_splitOn separator
    rw [split] at all
    rw [split, intercalate_cons] at whole
    have each : ∀ part ∈ first :: others, part ∈ identifierForm := fun part member =>
      (mem_identifierForm_iff part).2 (all part member)
    rw [List.forall_mem_cons] at each
    exact ⟨first, each.1, _, (mem_kstar_separated _ _).2 ⟨others, each.2, rfl⟩, whole⟩

/-- A text that starts with a separator has an empty segment. -/
theorem separator_cons_not_mem_qualifiedForm (rest : List Char) :
    separator :: rest ∉ qualifiedForm := by
  rw [mem_qualifiedForm_iff, List.splitOn_cons_eq_if_modifyHead, if_pos (beq_self_eq_true _)]
  intro all
  cases all [] (.head _)

/-- The matcher accepts the texts that the pattern describes. -/
theorem mem_namespaceForm_iff (allowLeading : Bool) (text : List Char) :
    text ∈ namespaceForm allowLeading ↔ isNamespaceName allowLeading text = true := by
  rw [isNamespaceName_iff_splitOn, ← mem_qualifiedForm_iff, namespaceForm]
  cases allowLeading with
  | false =>
      have unchanged : unprefixed false text = text := by cases text <;> rfl
      rw [unchanged, if_neg Bool.false_ne_true, one_mul]
  | true =>
      have leading : text ∈ ({[separator]} : Language Char) * qualifiedForm ↔
          ∃ rest, text = separator :: rest ∧ rest ∈ qualifiedForm := by
        rw [Language.mem_mul]
        constructor
        · rintro ⟨_, rfl, rest, valid, rfl⟩
          exact ⟨rest, rfl, valid⟩
        · rintro ⟨rest, rfl, valid⟩
          exact ⟨[separator], rfl, rest, valid, rfl⟩
      rw [if_pos rfl, add_mul, one_mul, Language.mem_add, leading]
      cases text with
      | nil => simp [unprefixed]
      | cons c rest =>
          by_cases separates : c = separator
          · subst separates
            rw [or_iff_right (separator_cons_not_mem_qualifiedForm rest)]
            simp [unprefixed]
          · simp [unprefixed, separates]

end Name

namespace Value

theorem word?_eq_some_iff {value : Value} {w : Word} : value.word? = some w ↔ value = .word w := by
  constructor
  · exact eq_of_word?
  · rintro rfl
    rfl

/-- Only words are names. -/
theorem isNamespaceName_iff_word (allowLeading : Bool) (value : Value) :
    value.isNamespaceName allowLeading = true ↔
      ∃ w, value = .word w ∧ Name.isNamespaceName allowLeading w.chars = true := by
  simp only [isNamespaceName, ← word?_eq_some_iff]
  cases value.word? <;> simp

theorem isIdentifier_iff_word (value : Value) :
    value.isIdentifier = true ↔
      ∃ w, value = .word w ∧ Name.isIdentifier w.chars = true := by
  simp only [isIdentifier, ← word?_eq_some_iff]
  cases value.word? <;> simp

/-- Which values are names. A value is a qualified name just when it is a text that, without one
separator in front where that is allowed, falls into identifiers when it is cut at every separator;
and just when the pattern of qualified names describes it. An identifier is a letter, an underscore
or a character from U+007F up, and any number of these and of digits. The identifiers are the names
without separators, and joined by separators they are names. -/
theorem isNamespaceName_grammar (allowLeading : Bool) :
    (∀ value : Value, value.isNamespaceName allowLeading = true ↔ ∃ w, value = .word w ∧
        ∀ part ∈ (Name.unprefixed allowLeading w.chars).splitOn Name.separator,
          Name.isIdentifier part = true) ∧
      (∀ value : Value, value.isNamespaceName allowLeading = true ↔
        ∃ w, value = .word w ∧ w.chars ∈ Name.namespaceForm allowLeading) ∧
      (∀ value : Value, value.isIdentifier = true ↔
        ∃ w, value = .word w ∧ Name.Spelled w.chars) ∧
      (∀ w : Word, (word w).isIdentifier = true ↔
        (word w).isNamespaceName allowLeading = true ∧ Name.separator ∉ w.chars) ∧
      ∀ parts : List (List Char), parts ≠ [] →
        (∀ part ∈ parts, (word (.ofChars part)).isIdentifier = true) →
          (word (.ofChars ([Name.separator].intercalate parts))).isNamespaceName
            allowLeading = true := by
  refine ⟨fun value => ?_, fun value => ?_, fun value => ?_, fun w => ?_, fun parts some each => ?_⟩
  · simp only [isNamespaceName_iff_word, Name.isNamespaceName_iff_splitOn]
  · simp only [isNamespaceName_iff_word, Name.mem_namespaceForm_iff]
  · simp only [isIdentifier_iff_word, Name.isIdentifier_iff_spelled]
  · exact Name.isIdentifier_iff_isNamespaceName allowLeading w.chars
  · have joined : (Word.ofChars ([Name.separator].intercalate parts)).chars =
        [Name.separator].intercalate parts := Word.chars_ofChars _
    refine (isNamespaceName_iff_word _ _).2
      ⟨_, rfl, joined.symm ▸ Name.isNamespaceName_intercalate _ some ?_⟩
    intro part member
    have own : Name.isIdentifier (Word.ofChars part).chars = true := each part member
    rwa [Word.chars_ofChars] at own

/-- Three segments, one of them of a single character beyond ASCII. -/
def threeSegments : List (List Char) := ["App".toList, "\u00fc".toList, "_1".toList]

/-- Joined they are a name; a separator in front has to be allowed, and two in a row never are. -/
theorem isNamespaceName_threeSegments :
    threeSegments ≠ [] ∧
      (∀ part ∈ threeSegments, (word (.ofChars part)).isIdentifier = true) ∧
      (word (.ofChars "App\\\u00fc\\_1".toList)).isNamespaceName true = true ∧
      (text "\\A\\B").isNamespaceName true = true ∧
      ¬(text "\\A\\B").isNamespaceName false = true ∧
      ¬(text "A\\\\B").isNamespaceName true = true := by
  obtain ⟨allowed, -, -, -, joins⟩ := isNamespaceName_grammar true
  obtain ⟨refused, -⟩ := isNamespaceName_grammar false
  have some : threeSegments ≠ [] := List.cons_ne_nil _ _
  have each : ∀ part ∈ threeSegments, (word (.ofChars part)).isIdentifier = true := by decide
  have joined : [Name.separator].intercalate threeSegments = "App\\\u00fc\\_1".toList := by decide
  refine ⟨some, each, joined ▸ joins _ some each, (allowed _).2 ⟨_, rfl, by decide⟩, ?_, ?_⟩
  · rw [refused]
    rintro ⟨w, same, valid⟩
    cases same
    exact absurd valid (by decide)
  · rw [allowed]
    rintro ⟨w, same, valid⟩
    cases same
    exact absurd valid (by decide)

end Value

end PhpDecl
