import PhpDecl.Store.Declarations
import PhpDecl.Store.Maps
import PhpDecl.Store.Scopes
import PhpDecl.Store.Shown

/-!
# Requests

What the objects of the model can be asked, with the values that go along, and the one function
that answers. A request that changes its target answers with the target itself.
-/

namespace PhpDecl

inductive Request
  | setName
  | getName
  | setType
  | getType
  | setFinal
  | isFinal
  | setAbstract
  | isAbstract
  | setComment
  | getComment
  | addComment
  | getNamespace
  | setExtends
  | getExtends
  | addExtend
  | setImplements
  | getImplements
  | addImplement
  | setTraits
  | getTraits
  | getTraitResolutions
  | addTrait
  | setConstants
  | getConstants
  | getConstant
  | addConstant
  | setProperties
  | getProperties
  | getProperty
  | addProperty
  | setMethods
  | getMethods
  | getMethod
  | addMethod
  | setValue
  | setVisibility
  | setStatic
  | setTypeHint
  | setNullable
  | setReference
  | setDefaultValue
  | setBody
  | addBody
  | addParameter
  | getParameters
  | setReturnType
  | setVariadic
  | hasBody
  | render
  | addUse
  | getUses
  | shorten
  | upsert
  | get
  | replace
  | names
  | toDict
  | asList
  | checkName
  | checkValue
  | checkDefaultValue
  | checkMemberName
  | checkTypeNames
  | listNames
  | size
  | truth
  | contains
  | text
  | inspect
  deriving DecidableEq, Repr

namespace Request

def assigned? : MemberType → Request → Option Field
  | .constant, .setComment | .property, .setComment | .method, .setComment => some .comment
  | .constant, .setValue | .property, .setValue => some .value
  | .constant, .setVisibility | .property, .setVisibility | .method, .setVisibility =>
      some .visibility
  | .property, .setStatic | .method, .setStatic => some .static
  | .parameter, .setTypeHint => some .typeHint
  | .parameter, .setNullable => some .nullable
  | .parameter, .setReference => some .reference
  | .method, .setBody => some .body
  | .method, .setFinal => some .final
  | .method, .setAbstract => some .abstract
  | .method, .setVariadic => some .variadic
  | _, _ => none

/-- Whether the request says yes when it says nothing else. -/
def isSwitch : Request → Bool
  | .setStatic | .setNullable | .setReference | .setFinal | .setAbstract | .setVariadic => true
  | _ => false

end Request

namespace Op

def textValue (text : List Char) : Value := .text (String.ofList text)

/-- The shortener that stands for a value; null stands for none. A value that cannot shorten
names will do where there are none to shorten. -/
def shortenerOf (namesTypes : Bool) (value : Value) : Op (Option Shortener) := do
  match value, (← get).shortener? value with
  | .atom .null, _ => return none
  | _, some shortener => return some shortener
  | _, none => if namesTypes then throw .unanswered else return some .full

/-- The text of a declaration or a member, with a shortener, if there is one. -/
def renderWith (target : Value) (shortener : Option Shortener) (layout : Layout) : Op Value := do
  let store ← get
  match target with
  | .classType h =>
      let _ ← ofExcept (store.classComment h)
      return textValue (store.renderClass h shortener layout)
  | .constant h => return textValue ((store.constants.get h).render layout)
  | .property h => return textValue ((store.properties.get h).render layout)
  | .method h => return textValue ((store.plainMethod h).render (shortener.getD .full) layout)
  | _ => throw .unanswered

/-- Whether the text of a value holds names of types. -/
def namesTypes (store : Store) : Value → Bool
  | .classType h => (store.plain h).namesTypes
  | .method h => (store.plainMethod h).namesTypes
  | _ => false

/-- The text of a declaration or a member, with names written short as a value does it. -/
def render (target shortener : Value) (layout : Layout) : Op Value := do
  let shortener ← shortenerOf (namesTypes (← get) target) shortener
  renderWith target shortener layout

/-- The text of the parameters of a method, with a shortener, if there is one. -/
def renderParametersWith (target : Value) (shortener : Option Shortener) (layout : Layout) :
    Op Value := do
  let store ← get
  match target with
  | .method h =>
      return textValue ((store.plainMethod h).renderParameters (shortener.getD .full) layout)
  | _ => throw .unanswered

/-- Whether the text of the parameters of a value holds names of types. -/
def parametersNameTypes (store : Store) : Value → Bool
  | .method h => (store.plainMethod h).parameters.values.any Parameter.namesType
  | _ => false

/-- The text of the parameters of a method, with names written short as a value does it. -/
def renderParameters (target shortener : Value) (layout : Layout) : Op Value := do
  let shortener ← shortenerOf (parametersNameTypes (← get) target) shortener
  renderParametersWith target shortener layout

def text (value : Value) : Op Value := do
  let store ← get
  ofExcept (store.checkText value)
  ofExcept (store.checkShown value)
  return textValue (store.textOf value)

def inspect (value : Value) : Op Value := do
  let store ← get
  ofExcept (store.checkShown value)
  return textValue (store.structureOf value)

def checkTypeNames (names : Value) : Op Unit := do
  let _ ← ofExcept ((← items names).mapM Value.checkTypeName)

def checkName (name : Value) : Op Value :=
  if name.isIdentifier then return name else refuse (.notIdentifier name)

/-- Answer with a value as it was given, if it can be written. -/
def checkValue (value : Value) : Op Value := do
  let _ ← ofExcept (value.checkLiteral (← get).nodes)
  return value

def sizeOf (value : Value) : Op Nat := do
  let store ← get
  match value with
  | .node _ | .atom (.word _) | .bytes _ | .map _ => return (← items value).length
  | _ => throw (.unsized (store.typeOf value))

def tellClass (h : Handle .classType) (request : Request) : Op Value := do
  let object := (← get).classes.get h
  let d := object.declaration
  let self := Value.classType h
  match request with
  | .getName => return (d.name.map fun name => Value.word name.word).getD .null
  | .getType => return .word (.kind d.kind)
  | .setFinal => changeClass h fun d => { d with final := .bool true }; return self
  | .isFinal => return d.final
  | .setAbstract => changeClass h fun d => { d with abstract := .bool true }; return self
  | .isAbstract => return d.abstract
  | .getComment => return d.comment
  | .getNamespace => return (object.scope.map Value.scope).getD .null
  | .getExtends =>
      match d.supertypes with
      | .single name => return .word name.word
      | .multiple names => newNode (.list (typeNameValues names))
  | .getImplements => newNode (.list (typeNameValues d.interfaces))
  | .getTraits => newNode (.list (typeNameValues d.traits.keys))
  | .getTraitResolutions => resolutionDict d.traits
  | .getConstants => newNode (memberDict .constant d.constants)
  | .getProperties => newNode (memberDict .property d.properties)
  | .getMethods => newNode (memberDict .method d.methods)
  | _ => throw .unanswered

def askClassWith (h : Handle .classType) (request : Request) (arg : Value) : Op Value := do
  let d := ((← get).classes.get h).declaration
  let self := Value.classType h
  match request with
  | .setName => setClassName h arg; return self
  | .setType => setKind h arg; return self
  | .setFinal => changeClass h fun d => { d with final := arg }; return self
  | .setAbstract => changeClass h fun d => { d with abstract := arg }; return self
  | .setComment => changeClass h fun d => { d with comment := arg }; return self
  | .addComment => addClassComment h arg; return self
  | .setExtends => setExtends h arg; return self
  | .addExtend => addExtend h arg; return self
  | .setImplements => setImplements h arg; return self
  | .addImplement => addImplement h arg; return self
  | .setTraits => setTraits h arg; return self
  | .addTrait => addTrait h arg none; return self
  | .setConstants => setConstants h arg; return self
  | .getConstant => return .constant (← lookup "Constant" d.constants arg)
  | .setProperties => setProperties h arg; return self
  | .getProperty => return .property (← lookup "Property" d.properties arg)
  | .addProperty => addProperty h arg .null
  | .setMethods => setMethods h arg; return self
  | .getMethod => return .method (← lookup "Method" d.methods arg)
  | .addMethod => addMethod h arg
  | .checkMemberName =>
      let _ ← ofExcept arg.checkMemberName
      return .null
  | .checkTypeNames => checkTypeNames arg; return .null
  | .listNames => newNode (.list (← nameItems arg))
  | _ => throw .unanswered

def askClass (h : Handle .classType) (request : Request) (args : List Value) : Op Value :=
  match args with
  | [] => tellClass h request
  | [arg] => askClassWith h request arg
  | [name, value] =>
      match request with
      | .addTrait => do
          addTrait h name (some value)
          return .classType h
      | .addConstant => addConstant h name value
      | .addProperty => addProperty h name value
      | _ => throw .unanswered
  | _ => throw .unanswered

/-- Ask a method for what only methods answer. -/
def askMethod (h : Handle .method) (request : Request) (args : List Value) : Op Value := do
  let method := (← get).methods.get h
  let self := Value.method h
  match request, args with
  | .addBody, [code] => addBody h code; return self
  | .addParameter, [name] => addParameter h name none
  | .addParameter, [name, default] => addParameter h name (some default)
  | .getParameters, [] => newNode (.list (method.parameters.values.map .parameter))
  | .setReturnType, [type] => setReturnType self type (.bool false); return self
  | .setReturnType, [type, nullable] => setReturnType self type nullable; return self
  | .hasBody, [] => return .bool method.hasBody
  | _, _ => throw .unanswered

def askMember (type : MemberType) (target : Value) (request : Request) (args : List Value) :
    Op Value := do
  match request.assigned? type with
  | some field =>
      match args with
      | [value] => assign target field value; return target
      | [] =>
          if request.isSwitch then
            assign target field (.bool true)
            return target
          else throw .unanswered
      | _ => throw .unanswered
  | none =>
      match type, request, args with
      | _, .checkName, [name] => checkName name
      | .parameter, .setDefaultValue, [value] => setDefault target value; return target
      | .parameter, .checkDefaultValue, [value] => checkValue value
      | .parameter, _, _ => throw .unanswered
      | .constant, .checkValue, [value] | .property, .checkValue, [value] => checkValue value
      | _, .getName, [] => return (← fieldOf target .name).getD .null
      | _, .addComment, [line] => addComment target line; return target
      | _, .render, [] => render target .null .standard
      | _, .render, [shortener] => render target shortener .standard
      | _, .render, [shortener, layout] =>
          if (← get).truth layout then throw .unanswered else render target shortener .standard
      | _, _, _ =>
          match target with
          | .method h => askMethod h request args
          | _ => throw .unanswered

def askScope (h : Handle .scope) (request : Request) (args : List Value) : Op Value := do
  let self := Value.scope h
  match request, args with
  | .addUse, [.atom (.word name)] => addUse h name.toText .null; return self
  | .addUse, [.atom (.word name), nick] => addUse h name.toText nick; return self
  | .getUses, [] => newNode (usesDict ((← get).scopes.get h))
  | .shorten, [name] => shorten h name
  | _, _ => throw .unanswered

def askMap (h : Handle .map) (request : Request) (args : List Value) : Op Value := do
  let map := (← get).maps.get h
  match request, args with
  | .upsert, [key, value] => upsert h key value
  | .get, [key] => find h key
  | .replace, [members] => replace h members; return .null
  | .contains, [key] => return .bool (← hasKey h key)
  | .size, [] => return .atom (.int map.items.length)
  | .truth, [] => return .bool (!map.items.isEmpty)
  | .names, [] => newNode (.list (map.items.map Prod.fst))
  | .toDict, [] => newNode (.dict map.items)
  | _, _ => throw .unanswered

def askObject (target : Value) (request : Request) (args : List Value) : Op Value :=
  match target with
  | .classType h => askClass h request args
  | .constant _ => askMember .constant target request args
  | .property _ => askMember .property target request args
  | .parameter _ => askMember .parameter target request args
  | .method _ => askMember .method target request args
  | .scope h => askScope h request args
  | .map h => askMap h request args
  | .shortener h =>
      match request, args with
      | .shorten, [name] => lookUp h name
      | _, _ => throw .unanswered
  | .supertypes s =>
      match request, args with
      | .asList, [] => newNode (.list (typeNameValues s.toList))
      | _, _ => throw .unanswered
  | _ => throw .unanswered

/-- Ask an object. Every object is shown on request. -/
def ask (target : Value) (request : Request) (args : List Value) : Op Value := do
  match request, args with
  | .text, [] => text target
  | .inspect, [] => inspect target
  | _, _ => askObject target request args

/-- Read an attribute of an object: the supertypes of a declaration and their names, the name of
a namespace, the kind of a map, a field or a private note of a member. -/
def readAttribute (target : Value) (label : String) : Op Value := do
  let store ← get
  match target, label with
  | .classType h, "supertypes" => return .supertypes (store.classes.get h).declaration.supertypes
  | .supertypes (.single name), "name" => return .word name.word
  | .supertypes (.multiple names), "names" => newNode (.tuple (typeNameValues names))
  | .scope h, "name" => return textValue (store.scopes.get h).nameChars
  | .map h, "kind" => return .text (store.maps.get h).kind
  | _, _ =>
      match (← (Field.ofLabel? label).mapM (fieldOf target)).join, ← noteOf target label with
      | some value, _ => return value
      | none, some value => return value
      | none, none => throw .unanswered

end Op

end PhpDecl
