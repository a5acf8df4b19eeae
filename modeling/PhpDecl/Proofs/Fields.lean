import Mathlib.Logic.Function.Basic
import PhpDecl.Store.Members

/-!
# Fields are read one by one

A field has a rule: what a value for it is read as, whatever the member and its other fields, and
what the field holds when no value is given for it. What a validator does is said by these rules
(`Validator.Lawful`): a member that is made holds what is read for its fields, or is refused for
everything that is wrong with them, and an assignment puts what is read in the place of what was
there. So there is one way to be lawful, and the validators of the members have it.
-/

namespace PhpDecl

/-- The type of a member. -/
def Value.memberType? : Value → Option MemberType
  | .constant _ => some .constant
  | .property _ => some .property
  | .parameter _ => some .parameter
  | .method _ => some .method
  | _ => none

/-- The fields of a member, in order. -/
def MemberType.fields : MemberType → List Field
  | .constant => Constant.fields
  | .property => Property.fields
  | .parameter => Parameter.fields
  | .method => Method.fields

/-- What a field of a member holds. -/
inductive Content
  | name (name : Identifier)
  | text (text : Option String)
  | literal (literal : ShallowLiteral)
  | flag (flag : Bool)
  | visibility (visibility : Option Visibility)
  | parameters (parameters : OrderedMap String (Draft .parameter Parameter))

/-! ## What the fields of a member hold -/

def Constant.content (constant : Constant) : Field → Option Content
  | .name => some (.name constant.name)
  | .comment => some (.text constant.comment)
  | .value => some (.literal constant.value)
  | .visibility => some (.visibility constant.visibility)
  | _ => none

def Property.content (property : Property) : Field → Option Content
  | .name => some (.name property.name)
  | .comment => some (.text property.comment)
  | .value => some (.literal property.value)
  | .static => some (.flag property.static)
  | .visibility => some (.visibility property.visibility)
  | _ => none

def Parameter.content (parameter : Parameter) : Field → Option Content
  | .name => some (.name parameter.name)
  | .typeHint => some (.text parameter.typeHint)
  | .nullable => some (.flag parameter.nullable)
  | .reference => some (.flag parameter.reference)
  | .defaultValue => some (.literal parameter.defaultValue)
  | .hasDefaultValue => some (.flag parameter.hasDefaultValue)
  | _ => none

def Method.content (method : Method (Draft .parameter Parameter)) : Field → Option Content
  | .name => some (.name method.name)
  | .comment => some (.text method.comment)
  | .parameters => some (.parameters method.parameters)
  | .body => some (.text method.body)
  | .static => some (.flag method.static)
  | .final => some (.flag method.final)
  | .abstract => some (.flag method.abstract)
  | .visibility => some (.visibility method.visibility)
  | .returnType => some (.text method.returnType)
  | .returnNullable => some (.flag method.returnNullable)
  | .returnReference => some (.flag method.returnReference)
  | .variadic => some (.flag method.variadic)
  | _ => none

/-- Members are what their fields hold. -/
def Fieldwise {α : Type} (fields : List Field) (content : α → Field → Option Content) :
    Prop :=
  ∀ ⦃a b⦄, (∀ field ∈ fields, content a field = content b field) → a = b

theorem Constant.fieldwise : Fieldwise fields content := by
  intro a b same
  cases a
  cases b
  simp_all [fields, content]

theorem Property.fieldwise : Fieldwise fields content := by
  intro a b same
  cases a
  cases b
  simp_all [fields, content]

theorem Parameter.fieldwise : Fieldwise fields content := by
  intro a b same
  cases a
  cases b
  simp_all [fields, content]

theorem Method.fieldwise : Fieldwise fields content := by
  intro a b same
  cases a
  cases b
  simp_all [fields, content]

/-! ## The rules of the fields -/

namespace Field

/-- What a value for a field is read as. -/
def read (graph : Graph) (field : Field) (value : Value) : Checked Content :=
  match field with
  | .name => .name <$> field.checked value.readName
  | .comment | .typeHint | .body | .returnType => .text <$> field.checked value.readOptionalText
  | .value | .defaultValue => .literal <$> field.checked (value.readLiteral graph)
  | .visibility => .visibility <$> field.checked value.readVisibility
  | .parameters => .parameters <$> Parameter.readAll graph value
  | .static | .nullable | .reference | .hasDefaultValue | .final | .abstract | .returnNullable
  | .returnReference | .variadic => .flag <$> field.checked value.readFlag

/-- What a field holds for which no value is given. A name has to be given. -/
def default? : Field → Option Content
  | .name => none
  | .comment | .typeHint | .returnType => some (.text none)
  | .body => some (.text (some ""))
  | .value | .defaultValue => some (.literal default)
  | .visibility => some (.visibility none)
  | .parameters => some (.parameters .empty)
  | .static | .nullable | .reference | .hasDefaultValue | .final | .abstract | .returnNullable
  | .returnReference | .variadic => some (.flag false)

/-- What is read for a field of which no value is given. -/
def absent (field : Field) : Checked Content :=
  match field.default? with
  | some content => .ok content
  | none => .error [.on field .missing]

/-- What is read for a field of a member that is made. -/
def initial (graph : Graph) (given : Given) (field : Field) : Checked Content :=
  match given field with
  | some offered => field.read graph offered
  | none => field.absent

end Field

/-- What a result is refused for. -/
def refusals {α : Type} : Checked α → List FieldError
  | .ok _ => []
  | .error errors => errors

theorem refusals_map {α β : Type} (f : α → β) (result : Checked α) :
    refusals (f <$> result) = refusals result := by
  cases result <;> rfl

/-- What a validator does, said by the rules of the fields. -/
structure Validator.Lawful {α : Type} (validator : Validator α) (fields : List Field)
    (content : α → Field → Option Content) : Prop where
  /-- A member that is made holds in each field what is read for it. -/
  holds : ∀ {graph given a}, validator.make graph given = .ok a →
    ∀ field ∈ fields, ∃ x, field.initial graph given = .ok x ∧ content a field = some x
  /-- A member is refused for everything that is wrong with its fields, in their order. -/
  collects : ∀ {graph given errors}, validator.make graph given = .error errors →
    errors ≠ [] ∧ errors = fields.flatMap fun field => refusals (field.initial graph given)
  /-- An assignment puts what is read into the field, and leaves the other fields. -/
  assigns : ∀ {graph a field value x}, field ∈ fields → field.read graph value = .ok x →
    ∃ b, validator.assign graph a field value = .ok b ∧
      content b = Function.update (content a) field (some x)
  /-- An assignment is refused for what is wrong with the value. -/
  refuses : ∀ {graph a field value errors}, field ∈ fields →
    field.read graph value = .error errors → validator.assign graph a field value = .error errors
  /-- There is no assignment to a field that is none of the member's. -/
  lacks : ∀ {graph a field value}, field ∉ fields →
    validator.assign graph a field value = field.refused

/-- What the validators of all members do. -/
structure Validators.Lawful (validators : Validators) : Prop where
  constant : validators.constant.Lawful Constant.fields Constant.content
  property : validators.property.Lawful Property.fields Property.content
  parameter : validators.parameter.Lawful Parameter.fields Parameter.content
  method : validators.method.Lawful Method.fields Method.content

namespace Validator.Lawful

variable {α : Type} {validator other : Validator α} {fields : List Field}
  {content : α → Field → Option Content} {graph : Graph} {given : Given}

/-- A member is made where something is read for each of its fields. -/
theorem exists_make (lawful : validator.Lawful fields content)
    (fine : ∀ field ∈ fields, refusals (field.initial graph given) = []) :
    ∃ a, validator.make graph given = .ok a := by
  cases made : validator.make graph given with
  | ok a => exact ⟨a, rfl⟩
  | error errors =>
      obtain ⟨wrong, rfl⟩ := lawful.collects made
      exact absurd (List.flatMap_eq_nil_iff.2 fine) wrong

theorem fine_of_make (lawful : validator.Lawful fields content) {a : α}
    (made : validator.make graph given = .ok a) :
    ∀ field ∈ fields, refusals (field.initial graph given) = [] := by
  intro field own
  obtain ⟨x, read, -⟩ := lawful.holds made field own
  rw [read]
  rfl

/-- What is assigned is read of the value, for a field that is one of the member's. -/
theorem read_of_assign (lawful : validator.Lawful fields content) {a b : α} {field : Field}
    {value : Value} (assigned : validator.assign graph a field value = .ok b) :
    field ∈ fields ∧ ∃ x, field.read graph value = .ok x := by
  by_cases own : field ∈ fields
  · cases read : field.read graph value with
    | ok x => exact ⟨own, x, rfl⟩
    | error errors => cases (lawful.refuses own read).symm.trans assigned
  · cases (lawful.lacks own).symm.trans assigned

/-- An assignment to one field leaves the others. -/
theorem content_of_assign (lawful : validator.Lawful fields content) {a b : α}
    {field another : Field} {value : Value}
    (assigned : validator.assign graph a field value = .ok b) (differs : another ≠ field) :
    content b another = content a another := by
  obtain ⟨own, x, read⟩ := lawful.read_of_assign assigned
  obtain ⟨b', taken, held⟩ := lawful.assigns (a := a) own read
  cases taken.symm.trans assigned
  rw [held, Function.update_of_ne differs]

/-- There is one way to be lawful. -/
theorem eq (lawful : validator.Lawful fields content) (like : other.Lawful fields content)
    (fieldwise : Fieldwise fields content) : validator = other := by
  have make (graph : Graph) (given : Given) :
      validator.make graph given = other.make graph given := by
    cases made : validator.make graph given with
    | ok a =>
        obtain ⟨b, too⟩ := like.exists_make (lawful.fine_of_make made)
        rw [too]
        refine congrArg Except.ok (fieldwise fun field own => ?_)
        obtain ⟨x, read, held⟩ := lawful.holds made field own
        obtain ⟨y, again, there⟩ := like.holds too field own
        cases read.symm.trans again
        rw [held, there]
    | error errors =>
        cases too : other.make graph given with
        | ok b =>
            obtain ⟨a, done⟩ := lawful.exists_make (like.fine_of_make too)
            cases done.symm.trans made
        | error others => rw [(lawful.collects made).2, (like.collects too).2]
  have assign (graph : Graph) (a : α) (field : Field) (value : Value) :
      validator.assign graph a field value = other.assign graph a field value := by
    by_cases own : field ∈ fields
    · cases read : field.read graph value with
      | ok x =>
          obtain ⟨b, taken, held⟩ := lawful.assigns (a := a) own read
          obtain ⟨c, too, there⟩ := like.assigns (a := a) own read
          rw [taken, too]
          exact congrArg Except.ok (fieldwise fun field _ => by rw [held, there])
      | error errors => rw [lawful.refuses own read, like.refuses own read]
    · rw [lawful.lacks own, like.lacks own]
  cases validator
  cases other
  congr
  · exact funext fun graph => funext fun given => make graph given
  · exact funext fun graph => funext fun a => funext fun field => funext fun value =>
      assign graph a field value

end Validator.Lawful

end PhpDecl
