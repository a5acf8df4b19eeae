import PhpDecl.Name
import PhpDecl.OrderedMap
import PhpDecl.Text.Lower

/-!
# Namespaces and short names

A namespace has a name, unless it is the global one, and a table of imports, each under an
alias. `Namespace.shorten` writes a class name in the shortest way that means the same class
inside the namespace: through the alias that gives the shortest text, relative to the
namespace, or in full.
-/

namespace PhpDecl

/-- The type words that name no class, in lower case. -/
def typeKeywords : List String :=
  ["string", "int", "float", "bool", "array", "object", "callable", "iterable", "void", "self",
    "parent", "static", "mixed", "null", "false", "true", "never"]

/-- Whether a text is a type word, whatever the case of its letters. -/
def isTypeKeyword (text : List Char) : Bool :=
  (typeKeywords.map String.toList).contains (Text.lower text)

structure Namespace where
  /-- The name; the global namespace has none. -/
  name : Option QualifiedName
  uses : OrderedMap Label QualifiedName

namespace Namespace

instance : Inhabited Namespace := ⟨⟨none, .empty⟩⟩

/-- The namespace of a name, which is global when the name is empty. -/
def ofName? (name : String) : Option Namespace :=
  if name.isEmpty then some ⟨none, .empty⟩
  else (QualifiedName.ofString? name).map fun name => ⟨some name, .empty⟩

/-- The characters of the name; the global namespace has none. -/
def nameChars (ns : Namespace) : List Char :=
  match ns.name with
  | none => []
  | some name => name.chars

inductive UseFault
  /-- The imported name, given here without the separators in front of it, is malformed. -/
  | invalidName (name : String)
  | invalidAlias (nick : Word)
  | aliasTaken (nick : Label) (existing name : QualifiedName)
  deriving DecidableEq

/-- The name that is imported: separators in front of it do not count. -/
def importedName (name : String) : Except UseFault QualifiedName :=
  let name := String.ofList (Name.withoutLeading name.toList)
  match QualifiedName.ofString? name with
  | some name => .ok name
  | none => .error (.invalidName name)

/-- The alias of an import: the one given, or the last segment of the name. -/
def aliasFor (name : QualifiedName) : Option Word → Except UseFault Label
  | none => .ok (.ofIdentifier name.lastSegment)
  | some nick =>
      match Label.ofWord? nick with
      | some label => .ok label
      | none => .error (.invalidAlias nick)

/-- Let an alias stand for a name, unless it stands for another one already; names that differ
in the case of letters alone are one. -/
def bindAlias (ns : Namespace) (nick : Label) (name : QualifiedName) :
    Except UseFault Namespace :=
  match ns.uses.get? nick with
  | some existing =>
      if Text.lower existing.chars == Text.lower name.chars then
        .ok { ns with uses := ns.uses.upsert nick name }
      else .error (.aliasTaken nick existing name)
  | none => .ok { ns with uses := ns.uses.upsert nick name }

/-- Import a name, under an alias if one is given. -/
def addUse (ns : Namespace) (name : String) (nick : Option Word) :
    Except UseFault Namespace := do
  let name ← importedName name
  ns.bindAlias (← aliasFor name nick) name

/-- Whether a text starts with the segments of another one, whatever the case of letters. -/
def startsWithSegments (text segments : List Char) : Bool :=
  (Text.lower segments ++ [Name.separator]).isPrefixOf (Text.lower text ++ [Name.separator])

/-- The text of a name through one import, when the import covers the name. -/
def throughUse? (name : List Char) (use : Label × QualifiedName) : Option (List Char) :=
  if startsWithSegments name use.2.chars then
    some (use.1.word.chars ++ name.drop use.2.chars.length)
  else none

/-- The shortest text, and of several as short the first. -/
def shortest? : List (List Char) → Option (List Char)
  | [] => none
  | text :: rest =>
      match shortest? rest with
      | none => some text
      | some other => if other.length < text.length then some other else some text

/-- The short text of a name without separators in front. -/
def shortenBare (ns : Namespace) (name : List Char) : List Char :=
  match shortest? (ns.uses.entries.filterMap (throughUse? name)) with
  | some text => text
  -- No import covers the name.
  | none =>
      match ns.name with
      | none => name
      | some own =>
          if (Text.lower own.chars ++ [Name.separator]).isPrefixOf (Text.lower name) then
            name.drop (own.chars.length + 1)
          else Name.separator :: name

/-- The shortest text of a name inside the namespace; a type word stays as it is, and so does
the empty text. -/
def shorten (ns : Namespace) (name : List Char) : List Char :=
  if name.isEmpty || isTypeKeyword name then name
  else ns.shortenBare (Name.withoutLeading name)

end Namespace

abbrev Shortener := Word → Word

namespace Shortener

/-- Every name in full, as it is stored. -/
def full : Shortener := id

def ofNamespace (ns : Namespace) : Shortener := fun name => .ofChars (ns.shorten name.chars)

/-- Replace the names of a table, and leave the others. -/
def ofTable (table : OrderedMap String String) : Shortener := fun name =>
  match table.get? name.toText with
  | some short => .text short
  | none => name

/-- Whether a type, if there is one, is a name and no type word. -/
def isAsked : Option String → Bool
  | none => false
  | some type => !type.isEmpty && !isTypeKeyword type.toList

/-- A type word is never shortened. -/
def shortenType (shortener : Shortener) (name : String) : List Char :=
  if isTypeKeyword name.toList then name.toList else (shortener (.text name)).shown.toList

end Shortener

end PhpDecl
