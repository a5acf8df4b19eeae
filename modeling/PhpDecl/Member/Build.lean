import PhpDecl.Field

/-!
# Making members

A member is made of the values that are given for its fields. Each of them is read by itself, and
everything that is wrong is collected, in the order of the fields. A field that is not given holds
a default, which is not checked; only the name has none.
-/

namespace PhpDecl

/-- What is read of values, or everything that is wrong with them. -/
abbrev Checked := Except (List FieldError)

namespace Checked

variable {α β : Type}

/-- What the fields are put into, in front of the first of them. -/
def start (make : α) : Checked α := .ok make

/-- Put in the next field. What is wrong with it stands behind what is wrong before it. -/
def and (make : Checked (α → β)) (field : Checked α) : Checked β :=
  match make, field with
  | .ok f, .ok a => .ok (f a)
  | .ok _, .error errors => .error errors
  | .error errors, .ok _ => .error errors
  | .error errors, .error others => .error (errors ++ others)

end Checked

/-- A result for a field, with what is wrong put where the field is. -/
def Field.checked {α : Type} (field : Field) (result : Except Problem α) : Checked α :=
  match result with
  | .ok a => .ok a
  | .error problem => .error [.on field problem]

abbrev Given := Field → Option Value

namespace Given

variable {α : Type}

/-- The values given by name, of which a later one counts more. -/
def ofPairs (pairs : List (String × Value)) : Given := fun field =>
  (pairs.reverse.find? fun pair => pair.1 == field.label).map Prod.snd

def ofEntries (entries : List (Value × Value)) : Given := fun field =>
  (entries.find? fun entry => entry.1.word? == some (.text field.label)).map Prod.snd

/-- What a field holds: what is read of the value that is given for it, or something else where
there is none. -/
def take (given : Given) (field : Field) (read : Value → Checked α) (absent : Checked α) :
    Checked α :=
  match given field with
  | some value => read value
  | none => absent

/-- A field that has to be given. -/
def required (given : Given) (field : Field) (read : Value → Except Problem α) : Checked α :=
  given.take field (fun value => field.checked (read value)) (.error [.on field .missing])

/-- A field with a default. -/
def optional (given : Given) (field : Field) (read : Value → Except Problem α) (default : α) :
    Checked α :=
  given.take field (fun value => field.checked (read value)) (.ok default)

end Given

namespace Constant

/-- The fields of a constant, in order. -/
def fields : List Field := [.name, .comment, .value, .visibility]

def build (graph : Graph) (given : Given) : Checked Constant :=
  Checked.start Constant.mk
    |>.and (given.required .name Value.readName)
    |>.and (given.optional .comment Value.readOptionalText none)
    |>.and (given.optional .value (Value.readLiteral graph) default)
    |>.and (given.optional .visibility Value.readVisibility none)

end Constant

namespace Property

/-- The fields of a property, in order. -/
def fields : List Field := [.name, .comment, .value, .static, .visibility]

def build (graph : Graph) (given : Given) : Checked Property :=
  Checked.start Property.mk
    |>.and (given.required .name Value.readName)
    |>.and (given.optional .comment Value.readOptionalText none)
    |>.and (given.optional .value (Value.readLiteral graph) default)
    |>.and (given.optional .static Value.readFlag false)
    |>.and (given.optional .visibility Value.readVisibility none)

end Property

namespace Parameter

/-- The fields of a parameter, in order. -/
def fields : List Field :=
  [.name, .typeHint, .nullable, .reference, .defaultValue, .hasDefaultValue]

def build (graph : Graph) (given : Given) : Checked Parameter :=
  Checked.start Parameter.mk
    |>.and (given.required .name Value.readName)
    |>.and (given.optional .typeHint Value.readOptionalText none)
    |>.and (given.optional .nullable Value.readFlag false)
    |>.and (given.optional .reference Value.readFlag false)
    |>.and (given.optional .defaultValue (Value.readLiteral graph) default)
    |>.and (given.optional .hasDefaultValue Value.readFlag false)

/-- Read a parameter under a key: a parameter stays the one it is, a dictionary gives the
fields of a new one. -/
def readDraft (graph : Graph) (key value : Value) : Checked (Draft .parameter Parameter) :=
  match value with
  | .parameter h => .ok (.existing h)
  | .node h =>
      match graph.get h with
      | .dict entries =>
          match build graph (.ofEntries entries) with
          | .ok parameter => .ok (.new parameter)
          | .error errors => .error (errors.map (·.inParameter key))
      | _ => .error [.inParameter key ⟨[], .notParameter⟩]
  | _ => .error [.inParameter key ⟨[], .notParameter⟩]

/-- Read an entry of the parameters: what is wrong with the key comes before what is wrong with
the value. -/
def readEntry (graph : Graph) (entry : Value × Value) :
    Checked (String × Draft .parameter Parameter) :=
  match entry.1.readText, readDraft graph entry.1 entry.2 with
  | .ok key, .ok draft => .ok (key, draft)
  | .ok _, .error errors => .error errors
  | .error problem, .ok _ => .error [.inParameter entry.1 ⟨[.keyItself], problem⟩]
  | .error problem, .error errors =>
      .error (.inParameter entry.1 ⟨[.keyItself], problem⟩ :: errors)

/-- Read the entries of the parameters, and collect what is wrong. -/
def readEntries (graph : Graph) :
    List (Value × Value) → Checked (List (String × Draft .parameter Parameter))
  | [] => .ok []
  | entry :: rest =>
      match readEntry graph entry, readEntries graph rest with
      | .ok first, .ok others => .ok (first :: others)
      | .ok _, .error errors => .error errors
      | .error errors, .ok _ => .error errors
      | .error errors, .error others => .error (errors ++ others)

def readAll (graph : Graph) (value : Value) :
    Checked (OrderedMap String (Draft .parameter Parameter)) :=
  match value with
  | .node h =>
      match graph.get h with
      | .dict entries => return .ofList (← readEntries graph entries)
      | _ => Field.parameters.checked (.error .notDict)
  | _ => Field.parameters.checked (.error .notDict)

end Parameter

namespace Method

/-- The fields of a method, in order. -/
def fields : List Field :=
  [.name, .comment, .parameters, .body, .static, .final, .abstract, .visibility, .returnType,
    .returnNullable, .returnReference, .variadic]

/-- Make a method. Its parameters may be new. -/
def build (graph : Graph) (given : Given) : Checked (Method (Draft .parameter Parameter)) :=
  Checked.start Method.mk
    |>.and (given.required .name Value.readName)
    |>.and (given.optional .comment Value.readOptionalText none)
    |>.and (given.take .parameters (Parameter.readAll graph) (.ok .empty))
    |>.and (given.optional .body Value.readOptionalText (some ""))
    |>.and (given.optional .static Value.readFlag false)
    |>.and (given.optional .final Value.readFlag false)
    |>.and (given.optional .abstract Value.readFlag false)
    |>.and (given.optional .visibility Value.readVisibility none)
    |>.and (given.optional .returnType Value.readOptionalText none)
    |>.and (given.optional .returnNullable Value.readFlag false)
    |>.and (given.optional .returnReference Value.readFlag false)
    |>.and (given.optional .variadic Value.readFlag false)

end Method

end PhpDecl
