import PhpDecl.Value.Spelling

/-!
# Fields of members

The fields that members have, what each kind of field accepts, and what is said when a value is
refused. Every check of a field stands here once, so that giving a value when a member is made
and assigning it later agree.
-/

namespace PhpDecl

inductive Field
  | name
  | comment
  | value
  | static
  | visibility
  | typeHint
  | nullable
  | reference
  | defaultValue
  | hasDefaultValue
  | parameters
  | body
  | final
  | abstract
  | returnType
  | returnNullable
  | returnReference
  | variadic
  deriving DecidableEq, Repr

namespace Field

def label : Field → String
  | .name => "name"
  | .comment => "comment"
  | .value => "value"
  | .static => "static"
  | .visibility => "visibility"
  | .typeHint => "type_hint"
  | .nullable => "nullable"
  | .reference => "reference"
  | .defaultValue => "default_value"
  | .hasDefaultValue => "has_default_value"
  | .parameters => "parameters"
  | .body => "body"
  | .final => "final"
  | .abstract => "abstract"
  | .returnType => "return_type"
  | .returnNullable => "return_nullable"
  | .returnReference => "return_reference"
  | .variadic => "variadic"

def all : List Field :=
  [.name, .comment, .value, .static, .visibility, .typeHint, .nullable, .reference,
    .defaultValue, .hasDefaultValue, .parameters, .body, .final, .abstract, .returnType,
    .returnNullable, .returnReference, .variadic]

def ofLabel? (label : String) : Option Field := all.find? (·.label == label)

theorem ofLabel?_label (field : Field) : ofLabel? field.label = some field := by
  cases field <;> decide

end Field

inductive Problem
  | missing
  | noField (label : String)
  | notText
  | undecodableText
  | notFlag
  /-- A text or a number, but none that says yes or no. -/
  | unclearFlag
  | notVisibility
  | notName (text : String)
  | notDumpable (fault : DumpFault)
  | notDict
  | notParameter
  deriving DecidableEq

inductive PathStep
  | field (label : String)
  | key (key : Value)
  /-- The key itself, not the entry under it. -/
  | keyItself
  deriving DecidableEq

/-- Something wrong, and where. -/
structure FieldError where
  path : List PathStep
  problem : Problem
  deriving DecidableEq

namespace FieldError

def on (field : Field) (problem : Problem) : FieldError := ⟨[.field field.label], problem⟩

/-- The same error, inside an entry of the parameters. -/
def inParameter (key : Value) (error : FieldError) : FieldError :=
  ⟨.field Field.parameters.label :: .key key :: error.path, error.problem⟩

end FieldError

namespace Value

/-- Read a text. Bytes are read as the text that they encode. -/
def readText : Value → Except Problem String
  | .atom (.word w) => .ok w.toText
  | .bytes content =>
      match String.fromUTF8? ⟨content.toArray⟩ with
      | some s => .ok s
      | none => .error .undecodableText
  | _ => .error .notText

/-- Read a text, or nothing. -/
def readOptionalText : Value → Except Problem (Option String)
  | .atom .null => .ok none
  | value => value.readText.map some

def readName (value : Value) : Except Problem Identifier := do
  let text ← value.readText
  match Identifier.ofString? text with
  | some name => .ok name
  | none => .error (.notName text)

def falseWords : List String := ["0", "off", "f", "false", "n", "no"]

def trueWords : List String := ["1", "on", "t", "true", "y", "yes"]

/-- Read a flag from a text, whatever the case of its ASCII letters. -/
def flagOfText (text : String) : Except Problem Bool :=
  let word := String.ofList (text.toList.map Char.toLower)
  if falseWords.contains word then .ok false
  else if trueWords.contains word then .ok true
  else .error .unclearFlag

def int64Bound : Int := 9223372036854775808

/-- Read a flag from an integer. One below `least` or beyond 64 bits is not even looked at. -/
def flagOfInt (least n : Int) : Except Problem Bool :=
  if n == 0 then .ok false
  else if n == 1 then .ok true
  else if least ≤ n && n < int64Bound then .error .unclearFlag
  else .error .notFlag

/-- Read a flag. A float counts as the integer that it is, if it is one; the least integer of 64
bits is in reach only for integers. -/
def readFlag : Value → Except Problem Bool
  | .atom (.bool b) => .ok b
  | .atom (.int n) => flagOfInt (-int64Bound) n
  | .atom (.float x) =>
      match x.toInt? with
      | some n => flagOfInt (1 - int64Bound) n
      | none => .error .notFlag
  | .atom (.word w) => flagOfText w.toText
  | .bytes content =>
      match String.fromUTF8? ⟨content.toArray⟩ with
      | some s => flagOfText s
      | none => .error .unclearFlag
  | _ => .error .notFlag

/-- Read a visibility, or none. -/
def readVisibility : Value → Except Problem (Option Visibility)
  | .atom .null => .ok none
  | .atom (.word w) =>
      match Visibility.ofKeyword? w.toText with
      | some visibility => .ok (some visibility)
      | none => .error .notVisibility
  | _ => .error .notVisibility

def readLiteral (graph : Graph) (value : Value) : Except Problem ShallowLiteral :=
  match graph.literal? value with
  | .ok literal => .ok literal
  | .error fault => .error (.notDumpable fault)

end Value

end PhpDecl
