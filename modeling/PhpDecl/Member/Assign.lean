import PhpDecl.Member.Build

/-!
# Assigning to members

`assign` gives a checked value to one field of a member and looks at no other. Making members and
assigning to them are what a `Validator` does; the ways that are taken here are those of
`Validators.standard`.
-/

namespace PhpDecl

/-- The refusal of a field that a member does not have. -/
def Field.refused {α : Type} (field : Field) : Checked α :=
  field.checked (.error (.noField field.label))

def Constant.assign (graph : Graph) (constant : Constant) (field : Field) (value : Value) :
    Checked Constant :=
  match field with
  | .name => return { constant with name := ← field.checked value.readName }
  | .comment => return { constant with comment := ← field.checked value.readOptionalText }
  | .value => return { constant with value := ← field.checked (value.readLiteral graph) }
  | .visibility => return { constant with visibility := ← field.checked value.readVisibility }
  | _ => field.refused

def Property.assign (graph : Graph) (property : Property) (field : Field) (value : Value) :
    Checked Property :=
  match field with
  | .name => return { property with name := ← field.checked value.readName }
  | .comment => return { property with comment := ← field.checked value.readOptionalText }
  | .value => return { property with value := ← field.checked (value.readLiteral graph) }
  | .static => return { property with static := ← field.checked value.readFlag }
  | .visibility => return { property with visibility := ← field.checked value.readVisibility }
  | _ => field.refused

def Parameter.assign (graph : Graph) (parameter : Parameter) (field : Field) (value : Value) :
    Checked Parameter :=
  match field with
  | .name => return { parameter with name := ← field.checked value.readName }
  | .typeHint => return { parameter with typeHint := ← field.checked value.readOptionalText }
  | .nullable => return { parameter with nullable := ← field.checked value.readFlag }
  | .reference => return { parameter with reference := ← field.checked value.readFlag }
  | .defaultValue =>
      return { parameter with defaultValue := ← field.checked (value.readLiteral graph) }
  | .hasDefaultValue =>
      return { parameter with hasDefaultValue := ← field.checked value.readFlag }
  | _ => field.refused

/-- Give a value to a field of a method. The parameters may be new. -/
def Method.assign (graph : Graph) (method : Method (Draft .parameter Parameter)) (field : Field)
    (value : Value) : Checked (Method (Draft .parameter Parameter)) :=
  match field with
  | .name => return { method with name := ← field.checked value.readName }
  | .comment => return { method with comment := ← field.checked value.readOptionalText }
  | .parameters => return { method with parameters := ← Parameter.readAll graph value }
  | .body => return { method with body := ← field.checked value.readOptionalText }
  | .static => return { method with static := ← field.checked value.readFlag }
  | .final => return { method with final := ← field.checked value.readFlag }
  | .abstract => return { method with abstract := ← field.checked value.readFlag }
  | .visibility => return { method with visibility := ← field.checked value.readVisibility }
  | .returnType => return { method with returnType := ← field.checked value.readOptionalText }
  | .returnNullable => return { method with returnNullable := ← field.checked value.readFlag }
  | .returnReference =>
      return { method with returnReference := ← field.checked value.readFlag }
  | .variadic => return { method with variadic := ← field.checked value.readFlag }
  | _ => field.refused

/-- The ways in which members of a type are made and assigned to. -/
structure Validator (α : Type) where
  make : Graph → Given → Checked α
  assign : Graph → α → Field → Value → Checked α

/-- The ways in which members of all types are made and assigned to. -/
structure Validators where
  constant : Validator Constant
  property : Validator Property
  parameter : Validator Parameter
  method : Validator (Method (Draft .parameter Parameter))

def Validators.standard : Validators where
  constant := ⟨Constant.build, Constant.assign⟩
  property := ⟨Property.build, Property.assign⟩
  parameter := ⟨Parameter.build, Parameter.assign⟩
  method := ⟨Method.build, Method.assign⟩

theorem Validators.standard_parameter_make : standard.parameter.make = Parameter.build := rfl

theorem Validators.standard_method_assign : standard.method.assign = Method.assign := rfl

end PhpDecl
