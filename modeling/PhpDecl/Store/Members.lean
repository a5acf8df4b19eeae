import PhpDecl.Member.Assign
import PhpDecl.Store

/-!
# Operations on members

Members are made of given values and changed field by field, in the ways that validators have for
it; a refused assignment changes nothing. An operation that assigns two fields assigns them one
after the other. A name that starts with an underscore is no field but a private note.
-/

namespace PhpDecl

inductive MemberType
  | constant
  | property
  | parameter
  | method
  deriving DecidableEq, Repr

namespace Store

def settleMethod (store : Store) (method : Method (Draft .parameter Parameter)) :
    Store × Method (Handle .parameter) :=
  let (parameters, settled) := method.parameters.mapAccum Arena.settle store.parameters
  ({ store with parameters }, { method with parameters := settled })

def addConstant (store : Store) (constant : Constant) : Store × Handle .constant :=
  ({ store with constants := store.constants.push constant }, store.constants.next)

def addProperty (store : Store) (property : Property) : Store × Handle .property :=
  ({ store with properties := store.properties.push property }, store.properties.next)

def addParameter (store : Store) (parameter : Parameter) : Store × Handle .parameter :=
  ({ store with parameters := store.parameters.push parameter }, store.parameters.next)

def addMethod (store : Store) (method : Method (Handle .parameter)) : Store × Handle .method :=
  ({ store with methods := store.methods.push method }, store.methods.next)

def setConstant (store : Store) (h : Handle .constant) (constant : Constant) : Store :=
  { store with constants := store.constants.set h constant }

def setProperty (store : Store) (h : Handle .property) (property : Property) : Store :=
  { store with properties := store.properties.set h property }

def setParameter (store : Store) (h : Handle .parameter) (parameter : Parameter) : Store :=
  { store with parameters := store.parameters.set h parameter }

def setMethod (store : Store) (h : Handle .method) (method : Method (Handle .parameter)) :
    Store :=
  { store with methods := store.methods.set h method }

end Store

namespace Op

def ofFields {α : Type} : Except (List FieldError) α → Op α
  | .ok a => pure a
  | .error errors => throw (.fields errors)

def newMemberBy (validators : Validators) (type : MemberType) (given : Given) : Op Value := do
  let store ← get
  match type with
  | .constant =>
      let constant ← ofFields (validators.constant.make store.nodes given)
      let (store, h) := store.addConstant constant
      set store
      return .constant h
  | .property =>
      let property ← ofFields (validators.property.make store.nodes given)
      let (store, h) := store.addProperty property
      set store
      return .property h
  | .parameter =>
      let parameter ← ofFields (validators.parameter.make store.nodes given)
      let (store, h) := store.addParameter parameter
      set store
      return .parameter h
  | .method =>
      let method ← ofFields (validators.method.make store.nodes given)
      let (store, method) := store.settleMethod method
      let (store, h) := store.addMethod method
      set store
      return .method h

def assignBy (validators : Validators) (target : Value) (field : Field) (value : Value) :
    Op Unit := do
  let store ← get
  match target with
  | .constant h =>
      let constant := store.constants.get h
      set (store.setConstant h
        (← ofFields (validators.constant.assign store.nodes constant field value)))
  | .property h =>
      let property := store.properties.get h
      set (store.setProperty h
        (← ofFields (validators.property.assign store.nodes property field value)))
  | .parameter h =>
      let parameter := store.parameters.get h
      set (store.setParameter h
        (← ofFields (validators.parameter.assign store.nodes parameter field value)))
  | .method h =>
      let drafted := (store.methods.get h).mapParameters .existing
      let (store, method) := store.settleMethod
        (← ofFields (validators.method.assign store.nodes drafted field value))
      set (store.setMethod h method)
  | _ => throw .unanswered

/-- Make a member. -/
def newMember (type : MemberType) (given : Given) : Op Value := newMemberBy .standard type given

/-- Assign to a field of a member. -/
def assign (target : Value) (field : Field) (value : Value) : Op Unit :=
  assignBy .standard target field value

/-- Whether a name is one of a private note. -/
def isNoteName (label : String) : Bool := label.toList.head? == some '_'

def annotate (target : Value) (label : String) (value : Value) : Op Unit :=
  match target with
  | .constant _ | .property _ | .parameter _ | .method _ =>
      modify fun store =>
        { store with
          notes := Entries.upsert (fun a b => decide (a = b)) (target, label) value store.notes }
  | _ => throw .unanswered

def noteOf (target : Value) (label : String) : Op (Option Value) := do
  return Entries.find? (fun a b => decide (a = b)) (target, label) (← get).notes

/-- Assign a field of a member by its name, or keep a private note with it. -/
def assignNamed (target : Value) (label : String) (value : Value) : Op Unit :=
  if isNoteName label then annotate target label value
  else
    match Field.ofLabel? label with
    | some field => assign target field value
    | none => throw (.fields [⟨[.field label], .noField label⟩])

/-- A text with a line behind it; the empty text has no line yet. -/
def withLine (text line : String) : String :=
  if text.isEmpty then line else text ++ "\n" ++ line

/-- The comment of a member, if it has comments. -/
def commentOf (target : Value) : Op (Option String) := do
  let store ← get
  match target with
  | .constant h => return (store.constants.get h).comment
  | .property h => return (store.properties.get h).comment
  | .method h => return (store.methods.get h).comment
  | _ => throw .unanswered

def addComment (target line : Value) : Op Unit := do
  let comment := (← commentOf target).getD ""
  assign target .comment (.text (withLine comment (← addedText line)))

def addBody (h : Handle .method) (code : Value) : Op Unit := do
  let body := ((← get).methods.get h).body.getD ""
  assign (.method h) .body (.text (body ++ (← addedText code) ++ "\n"))

def setDefault (target value : Value) : Op Unit := do
  assign target .defaultValue value
  assign target .hasDefaultValue (.bool true)

def setReturnType (target type nullable : Value) : Op Unit := do
  assign target .returnType type
  assign target .returnNullable nullable

/-- A new parameter with a name and perhaps a default. -/
def parameterOf (graph : Graph) (name : Value) (default : Option Value) :
    Except (List FieldError) Parameter := do
  let parameter ← Parameter.build graph fun field => if field = .name then some name else none
  match default with
  | none => return parameter
  | some value =>
      let parameter ← parameter.assign graph .defaultValue value
      parameter.assign graph .hasDefaultValue (.bool true)

/-- Add a parameter to a method, under its name. -/
def addParameter (h : Handle .method) (name : Value) (default : Option Value) : Op Value := do
  let store ← get
  let parameter ← ofFields (parameterOf store.nodes name default)
  let (store, added) := store.addParameter parameter
  let method := store.methods.get h
  set (store.setMethod h
    { method with parameters := method.parameters.upsert parameter.name.text added })
  return .parameter added

def visibilityValue (visibility : Option Visibility) : Value :=
  .optionalText (visibility.map Visibility.keyword)

def parameterDict (method : Method (Handle .parameter)) : Node :=
  .dict (method.parameters.entries.map fun (key, h) => (.text key, .parameter h))

def constantField (constant : Constant) : Field → Op (Option Value)
  | .name => return some (.text constant.name.text)
  | .comment => return some (.optionalText constant.comment)
  | .value => return some (← embed constant.value.literal)
  | .visibility => return some (visibilityValue constant.visibility)
  | _ => return none

def propertyField (property : Property) : Field → Op (Option Value)
  | .name => return some (.text property.name.text)
  | .comment => return some (.optionalText property.comment)
  | .value => return some (← embed property.value.literal)
  | .static => return some (.bool property.static)
  | .visibility => return some (visibilityValue property.visibility)
  | _ => return none

def parameterField (parameter : Parameter) : Field → Op (Option Value)
  | .name => return some (.text parameter.name.text)
  | .typeHint => return some (.optionalText parameter.typeHint)
  | .nullable => return some (.bool parameter.nullable)
  | .reference => return some (.bool parameter.reference)
  | .defaultValue => return some (← embed parameter.defaultValue.literal)
  | .hasDefaultValue => return some (.bool parameter.hasDefaultValue)
  | _ => return none

def methodField (method : Method (Handle .parameter)) : Field → Op (Option Value)
  | .name => return some (.text method.name.text)
  | .comment => return some (.optionalText method.comment)
  | .parameters => return some (← newNode (parameterDict method))
  | .body => return some (.optionalText method.body)
  | .static => return some (.bool method.static)
  | .final => return some (.bool method.final)
  | .abstract => return some (.bool method.abstract)
  | .visibility => return some (visibilityValue method.visibility)
  | .returnType => return some (.optionalText method.returnType)
  | .returnNullable => return some (.bool method.returnNullable)
  | .returnReference => return some (.bool method.returnReference)
  | .variadic => return some (.bool method.variadic)
  | _ => return none

/-- The value of a field of a member, if it has the field. -/
def fieldOf (target : Value) (field : Field) : Op (Option Value) := do
  let store ← get
  match target with
  | .constant h => constantField (store.constants.get h) field
  | .property h => propertyField (store.properties.get h) field
  | .parameter h => parameterField (store.parameters.get h) field
  | .method h => methodField (store.methods.get h) field
  | _ => return none

def fieldPairs (target : Value) (fields : List Field) : Op (List Value) := do
  let pairs ← fields.mapM fun field => do
    match ← fieldOf target field with
    | some value => return [← newNode (.tuple [.text field.label, value])]
    | none => return []
  return pairs.flatten

/-- The items of a value that can be gone through: of a container its items, of a dictionary
its keys, of a text its characters, of a member the pairs of its fields and values. -/
def items (value : Value) : Op (List Value) := do
  let store ← get
  match value with
  | .node h =>
      match store.nodes.get h with
      | .list items | .tuple items | .set items => return items
      | .dict entries => return entries.map Prod.fst
  | .atom (.word w) => return w.chars.map fun c => .text (String.singleton c)
  | .bytes content => return content.map fun byte => .atom (.int byte.toNat)
  | .map h => return (store.maps.get h).items.map Prod.snd
  | .constant _ => fieldPairs value Constant.fields
  | .property _ => fieldPairs value Property.fields
  | .parameter _ => fieldPairs value Parameter.fields
  | .method _ => fieldPairs value Method.fields
  | _ => throw (.notIterable (store.typeOf value))

end Op

end PhpDecl
