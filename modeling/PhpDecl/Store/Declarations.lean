import PhpDecl.Store.Members

/-!
# Operations on declarations

Every operation makes all its checks before it changes anything, so a refused one leaves the
declaration and its members as they were. Members are kept under the names that they have when
they are added; renaming one later moves nothing.
-/

namespace PhpDecl

namespace Value

def checkName {α : Type} (role : NameRole) (read : Word → Option α) (value : Value) :
    Except Fault α :=
  match value.word?.bind read with
  | some name => .ok name
  | none => .error (.invalidName role value)

def checkMemberName : Value → Except Fault Label := checkName .member Label.ofWord?

def checkTypeName : Value → Except Fault TypeName := checkName .type TypeName.ofWord?

/-- Read the name of a declaration, or none. -/
def checkDeclarationName : Value → Except Fault (Option Label)
  | .atom .null => .ok none
  | value => (checkName .declaration Label.ofWord? value).map some

def checkLiteral (graph : Graph) (value : Value) : Except Fault ShallowLiteral :=
  match graph.literal? value with
  | .ok literal => .ok literal
  | .error fault => .error (.notDumpable fault)

end Value

namespace Store

def changeClass (store : Store) (h : Handle .classType)
    (change : SharedDeclaration → SharedDeclaration) : Store :=
  let object := store.classes.get h
  { store with
    classes := store.classes.set h { object with declaration := change object.declaration } }

/-- A draft of a constant from an entry: a constant stays the one it is, and a value under a key
becomes the value of a new constant of that name. A null key counts as none. -/
def constantDraft (store : Store) (entry : Option Value × Value) :
    Except Fault (Draft .constant Constant) :=
  match entry with
  | (_, .constant h) => .ok (.existing h)
  | (none, _) | (some (.atom .null), _) => .error .notConstants
  | (some key, value) => do
      let name ← key.checkMemberName
      let literal ← value.checkLiteral store.nodes
      return .new { Constant.named name.toIdentifier with value := literal }

def constantName (store : Store) : Draft .constant Constant → Identifier
  | .existing h => (store.constants.get h).name
  | .new constant => constant.name

def listedProperty (store : Store) : Value → Except Fault (Handle .property)
  | .property h => .ok h
  | value => .error (.notMember .property (store.typeOf value))

def listedMethod (store : Store) : Value → Except Fault (Handle .method)
  | .method h => .ok h
  | value => .error (.notMember .method (store.typeOf value))

def resolution (store : Store) (value : Value) : Except Fault Word :=
  match value.word? with
  | some word => .ok word
  | none => .error (.notResolution (store.typeOf value))

end Store

namespace Op

/-- Make a declaration in a namespace, or in none when null stands for it. -/
def newClass (name scope : Value) : Op Value := do
  let name ← ofExcept name.checkDeclarationName
  let store ← get
  let type := store.typeOf scope
  let scope ← match scope with
    | .scope h => pure (some h)
    | .atom .null => pure none
    | _ => throw (if type.isHeldFast then .notFollowed type else .unanswered)
  set { store with
    classes := store.classes.push
      ⟨{ Declaration.blank (Value.bool false) Value.null with name }, scope⟩ }
  return .classType store.classes.next

def changeClass (h : Handle .classType) (change : SharedDeclaration → SharedDeclaration) :
    Op Unit :=
  modify (·.changeClass h change)

def setClassName (h : Handle .classType) (name : Value) : Op Unit := do
  let name ← ofExcept name.checkDeclarationName
  changeClass h fun d => { d with name }

def setKind (h : Handle .classType) (kind : Value) : Op Unit :=
  match kind.word?.bind fun word => Kind.ofKeyword? word.toText with
  | some kind => changeClass h fun d => { d with kind }
  | none => throw .notKind

def addClassComment (h : Handle .classType) (line : Value) : Op Unit := do
  let comment ← ofExcept ((← get).classComment h)
  let line ← addedText line
  changeClass h fun d => { d with comment := .text (withLine comment line) }

/-- The names of a value that has to hold several. -/
def nameItems (names : Value) : Op (List Value) :=
  match names.word? with
  | some _ => throw .notNameList
  | none => items names

/-- Replace the supertypes: by one, or by those of a list. -/
def setExtends (h : Handle .classType) (names : Value) : Op Unit := do
  match names.word?, ← node? names with
  | some _, _ =>
      let name ← ofExcept names.checkTypeName
      changeClass h fun d => { d with supertypes := .single name }
  | none, some (.list items) | none, some (.tuple items) =>
      let names ← ofExcept (items.mapM Value.checkTypeName)
      changeClass h fun d => { d with supertypes := .multiple names }
  | _, _ => throw .notNames

/-- Add a supertype; a single one becomes the first of a list. -/
def addExtend (h : Handle .classType) (name : Value) : Op Unit := do
  let name ← ofExcept name.checkTypeName
  changeClass h fun d => { d with supertypes := .multiple (d.supertypes.toList ++ [name]) }

def setImplements (h : Handle .classType) (names : Value) : Op Unit := do
  let names ← ofExcept ((← nameItems names).mapM Value.checkTypeName)
  changeClass h fun d => { d with interfaces := names }

def addImplement (h : Handle .classType) (name : Value) : Op Unit := do
  let name ← ofExcept name.checkTypeName
  changeClass h fun d => { d with interfaces := d.interfaces ++ [name] }

/-- Replace the used traits; each starts without directives. -/
def setTraits (h : Handle .classType) (names : Value) : Op Unit := do
  let names ← ofExcept ((← nameItems names).mapM Value.checkTypeName)
  changeClass h fun d => { d with traits := .ofList (names.map fun name => (name, [])) }

/-- Use a trait, with directives. -/
def addTrait (h : Handle .classType) (name : Value) (resolutions : Option Value) : Op Unit := do
  let name ← ofExcept name.checkTypeName
  let resolutions ← match resolutions with
    | none => pure []
    | some (.atom (.word _)) => throw .loneResolution
    | some resolutions => items resolutions
  let resolutions ← ofExcept (resolutions.mapM (← get).resolution)
  changeClass h fun d => { d with traits := d.traits.upsert name resolutions }

/-- The entries of a dictionary under their keys, or the items of another value without keys. -/
def keyedItems (value : Value) : Op (List (Option Value × Value)) := do
  match ← node? value with
  | some (.dict entries) => return entries.map fun entry => (some entry.1, entry.2)
  | _ => return (← items value).map fun item => (none, item)

/-- The items under the keys of a dictionary, or the items of another value. -/
def valueItems (value : Value) : Op (List Value) := do
  return (← keyedItems value).map Prod.snd

def setConstants (h : Handle .classType) (constants : Value) : Op Unit := do
  let entries ← keyedItems constants
  let store ← get
  let drafts ← ofExcept (entries.mapM store.constantDraft)
  let named := drafts.map fun draft => (Label.ofIdentifier (store.constantName draft), draft)
  let (constants, settled) := (OrderedMap.ofList named).mapAccum Arena.settle store.constants
  set ({ store with constants }.changeClass h fun d => { d with constants := settled })

def addConstant (h : Handle .classType) (name value : Value) : Op Value := do
  let store ← get
  let name ← ofExcept name.checkMemberName
  let literal ← ofExcept (value.checkLiteral store.nodes)
  let (store, added) :=
    store.addConstant { Constant.named name.toIdentifier with value := literal }
  set (store.changeClass h fun d => { d with constants := d.constants.upsert name added })
  return .constant added

def setProperties (h : Handle .classType) (properties : Value) : Op Unit := do
  let items ← valueItems properties
  let store ← get
  let handles ← ofExcept (items.mapM store.listedProperty)
  let named := handles.map fun h => (Label.ofIdentifier (store.properties.get h).name, h)
  changeClass h fun d => { d with properties := .ofList named }

def addProperty (h : Handle .classType) (name value : Value) : Op Value := do
  let store ← get
  let name ← ofExcept name.checkMemberName
  let literal ← ofExcept (value.checkLiteral store.nodes)
  let (store, added) :=
    store.addProperty { Property.named name.toIdentifier with value := literal }
  set (store.changeClass h fun d => { d with properties := d.properties.upsert name added })
  return .property added

def setMethods (h : Handle .classType) (methods : Value) : Op Unit := do
  let items ← valueItems methods
  let store ← get
  let handles ← ofExcept (items.mapM store.listedMethod)
  let named := handles.map fun h => (Label.ofIdentifier (store.methods.get h).name, h)
  changeClass h fun d => { d with methods := .ofList named }

/-- A new method of a declaration of a kind: one of an interface has no body, any other is
public. -/
def methodFor (kind : Kind) (name : Identifier) : Method (Handle .parameter) :=
  match kind with
  | .interface => { Method.named name with body := none }
  | .classType | .trait => { Method.named name with visibility := some .publicAccess }

def addMethod (h : Handle .classType) (name : Value) : Op Value := do
  let store ← get
  let name ← ofExcept name.checkMemberName
  let kind := (store.classes.get h).declaration.kind
  let (store, added) := store.addMethod (methodFor kind name.toIdentifier)
  set (store.changeClass h fun d => { d with methods := d.methods.upsert name added })
  return .method added

def lookup {role : Role} (kind : String) (members : OrderedMap Label (Handle role))
    (name : Value) : Op (Handle role) := do
  checkKey name
  match (name.word?.bind Label.ofWord?).bind members.get? with
  | some h => pure h
  | none => refuse (.notFound kind name)

def typeNameValues (names : List TypeName) : List Value := names.map fun name => .word name.word

def memberDict {role : Role} (wrap : Handle role → Value)
    (members : OrderedMap Label (Handle role)) : Node :=
  .dict (members.entries.map fun (name, h) => (.word name.word, wrap h))

def resolutionDict (traits : OrderedMap TypeName (List Word)) : Op Value := do
  let entries ← traits.entries.mapM fun (name, words) => do
    return (Value.word name.word, ← newNode (.list (words.map .word)))
  newNode (.dict entries)

end Op

end PhpDecl
