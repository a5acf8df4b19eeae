import PhpDecl.Store
import PhpDecl.Text.Shown

/-!
# How values are shown

The text of a value in a message, and the text that shows its inner structure, which is used
for everything inside a container. A container that is met inside itself is shown by dots.
-/

namespace PhpDecl

namespace Shown

def bracketed (opening closing : String) (parts : List (List Char)) : List Char :=
  opening.toList ++ Text.joined [',', ' '] parts ++ closing.toList

/-- A tuple; one of a single item keeps a comma. -/
def tuple (parts : List (List Char)) : List Char :=
  match parts with
  | [part] => '(' :: part ++ [',', ')']
  | _ => bracketed "(" ")" parts

def entry (key item : List Char) : List Char := key ++ [':', ' '] ++ item

def set (parts : List (List Char)) : List Char :=
  if parts.isEmpty then "set()".toList else bracketed "\x7b" "\x7d" parts

def bool (b : Bool) : List Char := if b then "True".toList else "False".toList

def word : Word → List Char
  | .text s => Text.Shown.quoted s.toList
  | .kind k =>
      '<' :: k.fullName.toList ++ [':', ' '] ++ Text.Shown.quoted k.keyword.toList ++ ['>']

def atom : Atom → List Char
  | .null => "None".toList
  | .bool b => bool b
  | .int n => Literal.intText n
  | .float x => x.shown
  | .word w => word w
  | .code text => "Literal(value=".toList ++ Text.Shown.quoted text.toList ++ [')']

def atomText : Atom → List Char
  | .word w => w.shown.toList
  | .code text => text.toList
  | a => atom a

mutual

def literal : Literal → List Char
  | .atom a => atom a
  | .list items => bracketed "[" "]" (literals items)
  | .tuple items => tuple (literals items)
  | .dict entries => bracketed "\x7b" "\x7d" (keyed entries)

def literals : List Literal → List (List Char)
  | [] => []
  | item :: rest => literal item :: literals rest

def keyed : List (Literal × Literal) → List (List Char)
  | [] => []
  | (key, item) :: rest => entry (literal key) (literal item) :: keyed rest

end

def optionalText : Option String → List Char
  | none => "None".toList
  | some s => Text.Shown.quoted s.toList

def visibility (v : Option Visibility) : List Char := optionalText (v.map Visibility.keyword)

def supertypes : Supertypes → List Char
  | .single name => "Single(name=".toList ++ word name.word ++ [')']
  | .multiple names =>
      "Multiple(names=".toList ++ tuple (names.map fun name => word name.word) ++ [')']

def field (f : Field) (value : List Char) : List Char := f.label.toList ++ '=' :: value

def constantFields (c : Constant) : List (List Char) :=
  [field .name (Text.Shown.quoted c.name.chars), field .comment (optionalText c.comment),
    field .value (literal c.value.literal), field .visibility (visibility c.visibility)]

def propertyFields (p : Property) : List (List Char) :=
  [field .name (Text.Shown.quoted p.name.chars), field .comment (optionalText p.comment),
    field .value (literal p.value.literal), field .static (bool p.static),
    field .visibility (visibility p.visibility)]

def parameterFields (p : Parameter) : List (List Char) :=
  [field .name (Text.Shown.quoted p.name.chars), field .typeHint (optionalText p.typeHint),
    field .nullable (bool p.nullable), field .reference (bool p.reference),
    field .defaultValue (literal p.defaultValue.literal),
    field .hasDefaultValue (bool p.hasDefaultValue)]

def object (type : TypeTag) (fields : List (List Char)) : List Char :=
  bracketed (type.label ++ "(") ")" fields

def parameters (map : OrderedMap String Parameter) : List Char :=
  bracketed "\x7b" "\x7d" (map.entries.map fun (key, parameter) =>
    entry (Text.Shown.quoted key.toList) (object .parameter (parameterFields parameter)))

def methodFields (m : Method Parameter) : List (List Char) :=
  [field .name (Text.Shown.quoted m.name.chars), field .comment (optionalText m.comment),
    field .parameters (parameters m.parameters), field .body (optionalText m.body),
    field .static (bool m.static), field .final (bool m.final),
    field .abstract (bool m.abstract), field .visibility (visibility m.visibility),
    field .returnType (optionalText m.returnType),
    field .returnNullable (bool m.returnNullable),
    field .returnReference (bool m.returnReference), field .variadic (bool m.variadic)]

/-- An object of which nothing but the type is shown. -/
def bare (type : TypeTag) : List Char := '<' :: type.label.toList ++ " object>".toList

end Shown

namespace Store

open Shown

/-- The fields of a member, shown. -/
def shownFields (store : Store) : Value → List (List Char)
  | .constant h => constantFields (store.constants.get h)
  | .property h => propertyFields (store.properties.get h)
  | .parameter h => parameterFields (store.parameters.get h)
  | .method h => methodFields (store.plainMethod h)
  | _ => []

/-- The structure of a declaration: its kind and its name. -/
def shownClass (store : Store) (h : Handle .classType) : List Char :=
  let d := (store.classes.get h).declaration
  "ClassType(".toList ++ d.kind.keyword.toList ++ ' ' ::
    (match d.name with
    | none => "None".toList
    | some name => word name.word) ++ [')']

/-- The structure of a value, where the containers in `inside` are being shown already. -/
def structureWithin (store : Store) : Nat → List (Handle .node) → Value → List Char
  | _, _, .atom a => atom a
  | _, _, .bytes content => Text.Shown.quotedBytes content
  | _, _, .supertypes s => supertypes s
  | _, _, .classType h => store.shownClass h
  | 0, _, .node _ => "...".toList
  | depth + 1, inside, .node h =>
      let part := store.structureWithin depth (h :: inside)
      match store.nodes.get h with
      | .list items =>
          if inside.contains h then "[...]".toList else bracketed "[" "]" (items.map part)
      | .tuple items => if inside.contains h then "(...)".toList else tuple (items.map part)
      | .dict entries =>
          if inside.contains h then "\x7b...\x7d".toList
          else bracketed "\x7b" "\x7d" (entries.map fun e => entry (part e.1) (part e.2))
      | .set items => if inside.contains h then "set(...)".toList else set (items.map part)
  | depth, inside, .map h =>
      let map := store.maps.get h
      let keys := map.items.map fun item =>
        match depth with
        | 0 => "...".toList
        | depth + 1 => store.structureWithin depth inside item.1
      "MemberMap(".toList ++ map.kind.toList ++ [',', ' '] ++ bracketed "[" "]" keys ++ [')']
  | _, _, value =>
      let type := store.typeOf value
      let fields := store.shownFields value
      if fields.isEmpty then bare type else object type fields

/-- The structure of a value. No path through containers is longer than there are containers
when it passes none of them twice. -/
def structureOf (store : Store) (value : Value) : List Char :=
  store.structureWithin (store.nodes.size + store.maps.size + 1) [] value

/-- The atoms that are shown where a value is shown, without those of the containers in
`inside`. -/
def shownAtoms (store : Store) : Nat → List (Handle .node) → Value → List Atom
  | _, _, .atom a => [a]
  | _, _, .constant h => (store.constants.get h).value.literal.atoms
  | _, _, .property h => (store.properties.get h).value.literal.atoms
  | _, _, .parameter h => (store.parameters.get h).defaultValue.literal.atoms
  | _, _, .method h =>
      (store.plainMethod h).parameters.values.flatMap fun p => p.defaultValue.literal.atoms
  | depth + 1, inside, .node h =>
      if inside.contains h then []
      else (store.nodes.get h).parts.flatMap fun part => store.shownAtoms depth (h :: inside) part
  | depth + 1, inside, .map h =>
      (store.maps.get h).items.flatMap fun item => store.shownAtoms depth inside item.1
  | _, _, _ => []

/-- The bound that an integer goes beyond that is shown where the value is shown. -/
def exceeded? (store : Store) (value : Value) : Option Nat :=
  (store.shownAtoms (store.nodes.size + store.maps.size + 1) [] value).findSome?
    (·.exceeded? .standard)

/-- Refuse a value that cannot be shown, because an integer in it is too long. -/
def checkShown (store : Store) (value : Value) : Except Fault Unit :=
  match store.exceeded? value with
  | some most => .error (.notDumpable (.tooLong most))
  | none => .ok ()

/-- The text of a value: a text as it is, code as it stands, a declaration as it is written. -/
def textOf (store : Store) : Value → List Char
  | .atom a => atomText a
  | .classType h => store.renderClass h none .standard
  | value =>
      let fields := store.shownFields value
      if fields.isEmpty then store.structureOf value else Text.joined [' '] fields

end Store

end PhpDecl
