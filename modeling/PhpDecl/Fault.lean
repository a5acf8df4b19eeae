import PhpDecl.Field
import PhpDecl.Namespace

/-!
# Faults

Everything that can be wrong with a request to the model, as causes. How a fault is worded is
decided in one place, where all values can be shown.
-/

namespace PhpDecl

inductive NameRole
  | declaration
  | member
  | type
  | scope
  | use
  | useAlias
  deriving DecidableEq, Repr

inductive ListedMember
  | property
  | method
  deriving DecidableEq, Repr

/-- Why a request is refused. -/
inductive Fault
  | invalidName (role : NameRole) (value : Value)
  /-- A value that is checked by itself is no identifier. -/
  | notIdentifier (value : Value)
  | aliasTaken (nick : Word) (existing name : String)
  | notKind
  | notNames
  /-- One name stands where a list of names is needed. -/
  | notNameList
  /-- One directive stands where a list of directives is needed. -/
  | loneResolution
  | notResolution (type : TypeTag)
  | notConstants
  | notMember (expected : ListedMember) (type : TypeTag)
  | notDumpable (fault : DumpFault)
  | notIterable (type : TypeTag)
  | unsized (type : TypeTag)
  /-- Only a text can be put behind a text, and nothing behind anything else. -/
  | notJoined (left right : TypeTag)
  | notKey (type : TypeTag)
  /-- A declaration cannot follow a value of the type without keeping it. -/
  | notFollowed (type : TypeTag)
  /-- An item that stands for a key and its value cannot be gone through. -/
  | notPair (position : Nat)
  /-- An item that stands for a key and its value does not hold two items. -/
  | notTwo (position length : Nat)
  | notFound (kind : String) (name : Value)
  | fields (errors : List FieldError)
  | unbound (variableName : String)
  /-- The request is none that the target answers. -/
  | unanswered
  deriving DecidableEq

/-- The types of errors that a caller can tell apart. -/
inductive ErrorType
  /-- The model finds something wrong with what it is given. -/
  | invalid
  /-- A member finds something wrong with what its fields are given. -/
  | fields
  | notFound
  | type
  | value
  | unbound
  | unanswered
  deriving DecidableEq, Repr

/-- The type of the error that a fault is, if it can be worded. -/
def Fault.errorType : Fault → ErrorType
  | .invalidName _ _ | .aliasTaken _ _ _ | .notKind | .notNames | .notNameList => .invalid
  | .loneResolution | .notResolution _ | .notConstants | .notMember _ _ => .invalid
  | .notDumpable _ => .invalid
  | .fields _ => .fields
  | .notFound _ _ => .notFound
  | .notIterable _ | .unsized _ | .notJoined _ _ | .notKey _ | .notFollowed _ => .type
  | .notPair _ => .type
  | .notIdentifier _ | .notTwo _ _ => .value
  | .unbound _ => .unbound
  | .unanswered => .unanswered

/-- The value whose text stands in the wording of a fault, if there is one. -/
def Fault.quoted? : Fault → Option Value
  | .invalidName _ value => some value
  | .notIdentifier value => some value
  | .notFound _ name => some name
  | _ => none

def Fault.ofUse : Namespace.UseFault → Fault
  | .invalidName name => .invalidName .use (.text name)
  | .invalidAlias nick => .invalidName .useAlias (.word nick)
  | .aliasTaken nick existing name => .aliasTaken nick.word existing.text name.text

end PhpDecl
