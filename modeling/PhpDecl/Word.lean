/-!
# Words: texts and kind words

A declaration is a class, an interface or a trait, and its kind may stand wherever a text may.
A kind word is read as the keyword it stands for, but a message or a pattern that shows it
writes its full name. `Word` keeps the two apart.
-/

namespace PhpDecl

inductive Kind
  | classType
  | interface
  | trait
  deriving DecidableEq, Repr

namespace Kind

def keyword : Kind → String
  | .classType => "class"
  | .interface => "interface"
  | .trait => "trait"

def fullName : Kind → String
  | .classType => "ClassKind.CLASS"
  | .interface => "ClassKind.INTERFACE"
  | .trait => "ClassKind.TRAIT"

def ofKeyword? : String → Option Kind
  | "class" => some .classType
  | "interface" => some .interface
  | "trait" => some .trait
  | _ => none

theorem ofKeyword?_keyword (kind : Kind) : ofKeyword? kind.keyword = some kind := by
  cases kind <;> rfl

end Kind

/-- A text as it was given: a plain one, or a kind. -/
inductive Word
  | text (s : String)
  | kind (k : Kind)
  deriving DecidableEq, Repr

namespace Word

def toText : Word → String
  | .text s => s
  | .kind k => k.keyword

def chars (word : Word) : List Char := word.toText.toList

def shown : Word → String
  | .text s => s
  | .kind k => k.fullName

def ofChars (cs : List Char) : Word := .text (String.ofList cs)

@[simp] theorem chars_ofChars (cs : List Char) : (ofChars cs).chars = cs := by
  simp [ofChars, Word.chars, toText]

/-- Two words are the same key when they are read as the same text. -/
instance : BEq Word := ⟨fun a b => a.toText == b.toText⟩

theorem beq_iff {a b : Word} : (a == b) = true ↔ a.toText = b.toText := by
  change (a.toText == b.toText) = true ↔ _
  exact beq_iff_eq

instance : EquivBEq Word where
  rfl := beq_iff.2 rfl
  symm h := beq_iff.2 (beq_iff.1 h).symm
  trans h h' := beq_iff.2 ((beq_iff.1 h).trans (beq_iff.1 h'))

end Word

end PhpDecl
