import PhpDecl.Literal
import PhpDecl.Name
import PhpDecl.OrderedMap

/-!
# Members of declarations

Constants, properties, methods and the parameters of methods. A method is generic in what
stands for its parameters, so that it may hold them or refer to them.
-/

namespace PhpDecl

inductive Visibility
  | publicAccess
  | protectedAccess
  | privateAccess
  deriving DecidableEq, Repr

namespace Visibility

def keyword : Visibility → String
  | .publicAccess => "public"
  | .protectedAccess => "protected"
  | .privateAccess => "private"

def ofKeyword? : String → Option Visibility
  | "public" => some .publicAccess
  | "protected" => some .protectedAccess
  | "private" => some .privateAccess
  | _ => none

theorem ofKeyword?_keyword (visibility : Visibility) :
    ofKeyword? visibility.keyword = some visibility := by
  cases visibility <;> rfl

end Visibility

structure Constant where
  name : Identifier
  comment : Option String
  value : ShallowLiteral
  visibility : Option Visibility

/-- A constant of a name, with the null value. -/
def Constant.named (name : Identifier) : Constant := ⟨name, none, default, none⟩

/-- A property; the null value means that it has no default. -/
structure Property where
  name : Identifier
  comment : Option String
  value : ShallowLiteral
  static : Bool
  visibility : Option Visibility

/-- A property of a name, without a default. -/
def Property.named (name : Identifier) : Property := ⟨name, none, default, false, none⟩

structure Parameter where
  name : Identifier
  typeHint : Option String
  nullable : Bool
  reference : Bool
  /-- The default, which counts only when there is one. -/
  defaultValue : ShallowLiteral
  hasDefaultValue : Bool

/-- A parameter of a name. -/
def Parameter.named (name : Identifier) : Parameter := ⟨name, none, false, false, default, false⟩

/-- A method, with parameters of type `π` under keys of the caller's choice. -/
structure Method (π : Type) where
  name : Identifier
  comment : Option String
  parameters : OrderedMap String π
  /-- The code; a method without any is a bare signature. -/
  body : Option String
  static : Bool
  final : Bool
  abstract : Bool
  visibility : Option Visibility
  returnType : Option String
  returnNullable : Bool
  returnReference : Bool
  variadic : Bool

namespace Method

variable {π ρ : Type}

/-- A method of a name, with no parameters and an empty body. -/
def named (name : Identifier) : Method π :=
  ⟨name, none, .empty, some "", false, false, false, none, none, false, false, false⟩

def mapParameters (f : π → ρ) (method : Method π) : Method ρ :=
  { method with parameters := method.parameters.mapValues f }

/-- Whether the method is written with a body. -/
def hasBody (method : Method π) : Bool := method.body.isSome && !method.abstract

end Method

/-- The name that members have before they are given one. -/
def Identifier.placeholder : Identifier := ⟨"_", by decide⟩

instance : Inhabited Identifier := ⟨.placeholder⟩

instance : Inhabited Constant := ⟨.named default⟩

instance : Inhabited Property := ⟨.named default⟩

instance : Inhabited Parameter := ⟨.named default⟩

instance {π : Type} : Inhabited (Method π) := ⟨.named default⟩

end PhpDecl
