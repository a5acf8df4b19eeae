import PhpDecl.Word

/-!
# Names

An identifier starts with a letter, an underscore or a character from U+007F up, and goes on
with these or digits. A qualified name is a run of identifiers joined by separators; a type name
may have a separator in front as well. The names of the model carry the proof of their grammar.

`isQualified` matches in one pass. `isQualified_iff_segments` says what it accepts: the texts
whose segments, cut at every separator, are identifiers.
-/

namespace PhpDecl

namespace Name

/-- The character between the segments of a qualified name. -/
def separator : Char := '\\'

/-- The characters that an identifier may start with. -/
def isStart (c : Char) : Bool :=
  ('a' ≤ c && c ≤ 'z') || ('A' ≤ c && c ≤ 'Z') || c == '_' || 0x7f ≤ c.toNat

/-- The characters that an identifier may go on with. -/
def isRest (c : Char) : Bool := isStart c || ('0' ≤ c && c ≤ '9')

def isIdentifier : List Char → Bool
  | [] => false
  | c :: rest => isStart c && rest.all isRest

/-- Match the rest of a qualified name, at the start of a segment or inside one. -/
def matchSegments : Bool → List Char → Bool
  | atStart, [] => !atStart
  | true, c :: rest => isStart c && matchSegments false rest
  | false, c :: rest =>
      if c == separator then matchSegments true rest
      else isRest c && matchSegments false rest

/-- Identifiers joined by separators, with none in front. -/
def isQualified (text : List Char) : Bool := matchSegments true text

/-- Identifiers joined by separators, with or without one in front. -/
def isTypeName : List Char → Bool
  | [] => false
  | c :: rest => if c == separator then isQualified rest else isQualified (c :: rest)

/-- A qualified name, with a separator in front only where one is allowed. -/
def isNamespaceName (allowLeading : Bool) (text : List Char) : Bool :=
  if allowLeading then isTypeName text else isQualified text

/-- The parts of a text between its separators. -/
def segments : List Char → List (List Char)
  | [] => [[]]
  | c :: rest =>
      if c == separator then [] :: segments rest
      else
        match segments rest with
        | [] => [[c]]
        | part :: parts => (c :: part) :: parts

/-- The part behind the last separator. -/
def lastSegment (text : List Char) : List Char := (segments text).getLastD []

/-- The text without the separators in front. -/
def withoutLeading (text : List Char) : List Char := text.dropWhile (· == separator)

theorem segments_ne_nil (text : List Char) : segments text ≠ [] := by
  cases text with
  | nil => simp [segments]
  | cons c rest =>
      rw [segments]
      split
      · simp
      · split <;> simp

theorem isRest_of_mem {text : List Char} (valid : isIdentifier text = true) {c : Char}
    (member : c ∈ text) : isRest c = true := by
  cases text with
  | nil => cases member
  | cons first rest =>
      rw [isIdentifier, Bool.and_eq_true] at valid
      rcases List.mem_cons.1 member with rfl | later
      · rw [isRest, valid.1, Bool.true_or]
      · exact List.all_eq_true.1 valid.2 c later

theorem isStart_separator : isStart separator = false := by decide

theorem isRest_separator : isRest separator = false := by decide

/-- What the matcher accepts, in both of its states. -/
theorem matchSegments_eq_segments (text : List Char) :
    matchSegments true text = (segments text).all isIdentifier ∧
      matchSegments false text =
        (((segments text).headD []).all isRest && (segments text).tail.all isIdentifier) := by
  induction text with
  | nil => exact ⟨rfl, rfl⟩
  | cons c rest ih =>
      obtain ⟨atStart, inside⟩ := ih
      obtain ⟨part, parts, split⟩ := List.exists_cons_of_ne_nil (segments_ne_nil rest)
      rw [split] at atStart inside
      by_cases h : c = separator
      · subst h
        simp [matchSegments, segments, isIdentifier, isStart_separator, split, atStart]
      · simp [matchSegments, segments, isIdentifier, h, split, inside, Bool.and_assoc]

/-- The matcher accepts the texts whose segments are identifiers. -/
theorem isQualified_iff_segments (text : List Char) :
    isQualified text = true ↔ ∀ part ∈ segments text, isIdentifier part = true := by
  rw [isQualified, (matchSegments_eq_segments text).1, List.all_eq_true]

/-- The last segment of a qualified name is an identifier. -/
theorem isIdentifier_lastSegment {text : List Char} (h : isQualified text = true) :
    isIdentifier (lastSegment text) = true := by
  refine (isQualified_iff_segments text).1 h _ ?_
  rw [lastSegment, List.getLastD_eq_getLast?,
    List.getLast?_eq_some_getLast (segments_ne_nil text), Option.getD_some]
  exact List.getLast_mem _

end Name

/-- A plain text that is an identifier. -/
structure Identifier where
  text : String
  valid : Name.isIdentifier text.toList = true
  deriving DecidableEq

namespace Identifier

def ofString? (text : String) : Option Identifier :=
  if valid : Name.isIdentifier text.toList = true then some ⟨text, valid⟩ else none

def chars (name : Identifier) : List Char := name.text.toList

end Identifier

/-- A word that is an identifier. -/
structure Label where
  word : Word
  valid : Name.isIdentifier word.chars = true
  deriving DecidableEq

namespace Label

def ofWord? (word : Word) : Option Label :=
  if valid : Name.isIdentifier word.chars = true then some ⟨word, valid⟩ else none

def ofIdentifier (name : Identifier) : Label := ⟨.text name.text, name.valid⟩

def toIdentifier (label : Label) : Identifier := ⟨label.word.toText, label.valid⟩

/-- Two labels are the same key when their words are. -/
instance : BEq Label := ⟨fun a b => a.word == b.word⟩

instance : EquivBEq Label where
  rfl {a} := BEq.refl a.word
  symm {a b} h := BEq.symm (a := a.word) (b := b.word) h
  trans {a b c} h h' := BEq.trans (a := a.word) (b := b.word) (c := c.word) h h'

end Label

/-- A plain text that is a qualified name with no separator in front. -/
structure QualifiedName where
  text : String
  valid : Name.isQualified text.toList = true
  deriving DecidableEq

namespace QualifiedName

def ofString? (text : String) : Option QualifiedName :=
  if valid : Name.isQualified text.toList = true then some ⟨text, valid⟩ else none

def chars (name : QualifiedName) : List Char := name.text.toList

/-- The last segment of the name. -/
def lastSegment (name : QualifiedName) : Identifier :=
  ⟨String.ofList (Name.lastSegment name.chars), by
    simpa [chars] using Name.isIdentifier_lastSegment name.valid⟩

end QualifiedName

/-- A word that names a type: a qualified name, with or without a separator in front. -/
structure TypeName where
  word : Word
  valid : Name.isTypeName word.chars = true
  deriving DecidableEq

namespace TypeName

def ofWord? (word : Word) : Option TypeName :=
  if valid : Name.isTypeName word.chars = true then some ⟨word, valid⟩ else none

/-- Two type names are the same key when their words are. -/
instance : BEq TypeName := ⟨fun a b => a.word == b.word⟩

instance : EquivBEq TypeName where
  rfl {a} := BEq.refl a.word
  symm {a b} h := BEq.symm (a := a.word) (b := b.word) h
  trans {a b c} h h' := BEq.trans (a := a.word) (b := b.word) (c := c.word) h h'

end TypeName

end PhpDecl
