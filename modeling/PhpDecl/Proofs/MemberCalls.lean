import PhpDecl.Proofs.Validators
import PhpDecl.Proofs.Refusal
import PhpDecl.Proofs.UniqueNames

/-!
# Calls that write members

A declaration is given its members one by one, each made by the call, or all at once, where a
constant may also be given by its name and its value. A name and a value are checked before a member
is made of them, and the member has checks of its own, which are the same (`Graph.Makes`).
-/

namespace PhpDecl

/-- The members that a declaration keeps in collections. -/
inductive MemberSort
  | constant
  | property
  | method
  deriving DecidableEq, Repr

namespace MemberSort

def collection (h : Handle .classType) : MemberSort → Collection
  | constant => .constants h
  | property => .properties h
  | method => .methods h

/-- The request that replaces the collection. -/
def setAll : MemberSort → Request
  | constant => .setConstants
  | property => .setProperties
  | method => .setMethods

/-- The request for the whole collection. -/
def getAll : MemberSort → Request
  | constant => .getConstants
  | property => .getProperties
  | method => .getMethods

/-- The request for one member. -/
def getOne : MemberSort → Request
  | constant => .getConstant
  | property => .getProperty
  | method => .getMethod

/-- What a member is called when it is not found. -/
def label : MemberSort → String
  | constant => "Constant"
  | property => "Property"
  | method => "Method"

/-- What the members of a collection are called that takes nothing but members. -/
def listed? : MemberSort → Option ListedMember
  | constant => none
  | property => some .property
  | method => some .method

end MemberSort

def Value.sort? : Value → Option MemberSort
  | .constant _ => some .constant
  | .property _ => some .property
  | .method _ => some .method
  | _ => none

/-- A call that writes to a collection of a declaration. -/
inductive MemberCall
  | set (sort : MemberSort) (members : Value)
  | addConstant (name value : Value)
  | addProperty (name : Value) (value : Option Value)
  | addMethod (name : Value)

namespace MemberCall

/-- The collection that the call writes to. -/
def sort : MemberCall → MemberSort
  | set sort _ => sort
  | addConstant _ _ => .constant
  | addProperty _ _ => .property
  | addMethod _ => .method

/-- The name of the member that the call adds. -/
def name? : MemberCall → Option Value
  | set _ _ => none
  | addConstant name _ | addProperty name _ | addMethod name => some name

/-- The value of the member that the call adds; a property that is given none has null. -/
def value? : MemberCall → Option Value
  | set _ _ | addMethod _ => none
  | addConstant _ value => some value
  | addProperty _ value => some (value.getD .null)

def request : MemberCall → Request
  | set sort _ => sort.setAll
  | addConstant _ _ => .addConstant
  | addProperty _ _ => .addProperty
  | addMethod _ => .addMethod

def args : MemberCall → List Value
  | set _ members => [members]
  | addConstant name value => [name, value]
  | addProperty name value => name :: value.toList
  | addMethod name => [name]

def ask (h : Handle .classType) (call : MemberCall) : Op Value :=
  Op.ask (.classType h) call.request call.args

end MemberCall

/-! ## Members that are made -/

/-- The member is made of the name and the value: it is what its own checks make of them, and holds
the name and the value that were given. -/
structure Graph.Makes {α : Type} (graph : Graph)
    (build : Graph → Given → Except (List FieldError) α) (nameOf : α → Identifier)
    (valueOf : α → ShallowLiteral) (name value : Value) (member : α) : Prop where
  built : build graph (.ofPairs [("name", name), ("value", value)]) = .ok member
  name : ∃ word, name = .word word ∧ (nameOf member).text = word.toText
  value : graph.literal? value = .ok (valueOf member)

/-- The method is made of the name for a declaration of the kind: it is what the checks of a method
make of the name, and then of what the kind gives it, no body or that it is public. -/
structure Graph.MakesMethod (graph : Graph) (kind : Kind) (name : Value)
    (method : Method (Handle .parameter)) : Prop where
  built : ∃ named, Method.build graph (.ofPairs [("name", name)]) = .ok named ∧
    (if kind = .interface then named.assign graph .body .null
      else named.assign graph .visibility (.text "public")) = .ok (method.mapParameters .existing)
  name : ∃ word, name = .word word ∧ method.name.text = word.toText

namespace Value

/-- A name of a member is an identifier, and refused otherwise. -/
theorem checkMemberName_cases (name : Value) :
    (∃ label : Label, name = .word label.word ∧ name.checkMemberName = .ok label) ∨
      name.isIdentifier = false ∧ name.checkMemberName = .error (.invalidName .member name) := by
  rw [isIdentifier, checkMemberName, checkName]
  cases read : name.word? with
  | none => exact .inr ⟨rfl, rfl⟩
  | some word =>
      obtain rfl := eq_of_word? read
      dsimp only
      rw [Option.bind_some, Label.ofWord?]
      by_cases valid : Name.isIdentifier word.chars = true
      · rw [dif_pos valid]
        exact .inl ⟨⟨word, valid⟩, rfl, rfl⟩
      · rw [dif_neg valid]
        exact .inr ⟨by simpa using valid, rfl⟩

/-- A value becomes a literal, and is refused for the reason that dumping gives otherwise. -/
theorem checkLiteral_eq (graph : Graph) (value : Value) : value.checkLiteral graph =
    match graph.literal? value with
    | .ok literal => .ok literal
    | .error fault => .error (.notDumpable fault) := rfl

end Value

theorem Given.ofPairs_name (name : Value) :
    Given.ofPairs [("name", name)] = fun field => if field = .name then some name else none := by
  funext field
  cases field <;> rfl

theorem Given.ofPairs_name_value (name value : Value) :
    Given.ofPairs [("name", name), ("value", value)] = fun field =>
      if field = .name then some name else if field = .value then some value else none := by
  funext field
  cases field <;> rfl

namespace Graph

variable {graph : Graph} {label : Label} {value : Value} {literal : ShallowLiteral}

theorem readName_word (label : Label) :
    (Value.word label.word).readName = .ok label.toIdentifier := by
  have read : Identifier.ofString? label.word.toText = some label.toIdentifier :=
    dif_pos label.valid
  simp only [Value.readName, Value.readText, Value.word, bind, Except.bind, read]

theorem readLiteral_of_dumped (dumped : graph.literal? value = .ok literal) :
    value.readLiteral graph = .ok literal := by
  rw [Value.readLiteral, dumped]

theorem dump_eq_error_iff {layout : Layout} {fault : DumpFault} :
    graph.dump layout value = .error fault ↔ graph.literal? value = .error fault := by
  rw [dump_eq]
  cases graph.literal? value <;> simp [Except.map]

/-- What the checks in front of a constant accept, the checks of the constant accept. -/
theorem makes_constant (dumped : graph.literal? value = .ok literal) :
    graph.Makes Constant.build Constant.name Constant.value (.word label.word) value
      { Constant.named label.toIdentifier with value := literal } where
  built := by
    simp only [Constant.build, Given.required, Given.optional, Given.take,
      Given.ofPairs_name_value, reduceCtorEq, if_true, if_false, readName_word,
      readLiteral_of_dumped dumped]
    rfl
  name := ⟨_, rfl, rfl⟩
  value := dumped

/-- What the checks in front of a property accept, the checks of the property accept. -/
theorem makes_property (dumped : graph.literal? value = .ok literal) :
    graph.Makes Property.build Property.name Property.value (.word label.word) value
      { Property.named label.toIdentifier with value := literal } where
  built := by
    simp only [Property.build, Given.required, Given.optional, Given.take,
      Given.ofPairs_name_value, reduceCtorEq, if_true, if_false, readName_word,
      readLiteral_of_dumped dumped]
    rfl
  name := ⟨_, rfl, rfl⟩
  value := dumped

/-- A method is made of a name that is a label, and then is what its kind gives it. -/
theorem makes_method (kind : Kind) :
    graph.MakesMethod kind (.word label.word) (Op.methodFor kind label.toIdentifier) where
  built := by
    refine ⟨.named label.toIdentifier, ?_, ?_⟩
    · simp only [Method.build, Given.required, Given.optional, Given.take, Given.ofPairs_name,
        reduceCtorEq, if_true, if_false, readName_word]
      rfl
    · cases kind <;> rfl
  name := by
    refine ⟨_, rfl, ?_⟩
    cases kind <;> rfl

end Graph

/-! ## Collections of a declaration -/

/-- The members of a collection, each with its key. -/
def SharedDeclaration.listed (d : SharedDeclaration) : MemberSort → List (String × Value)
  | .constant => d.constants.entries.map fun entry => (entry.1.word.toText, .constant entry.2)
  | .property => d.properties.entries.map fun entry => (entry.1.word.toText, .property entry.2)
  | .method => d.methods.entries.map fun entry => (entry.1.word.toText, .method entry.2)

namespace SharedDeclaration

variable {sort : MemberSort}

theorem listed_with_constants (d : SharedDeclaration)
    (constants : OrderedMap Label (Handle .constant)) (other : sort ≠ .constant) :
    listed { d with constants } sort = d.listed sort := by
  cases sort with
  | constant => exact absurd rfl other
  | property | method => rfl

theorem listed_with_properties (d : SharedDeclaration)
    (properties : OrderedMap Label (Handle .property)) (other : sort ≠ .property) :
    listed { d with properties } sort = d.listed sort := by
  cases sort with
  | property => exact absurd rfl other
  | constant | method => rfl

theorem listed_with_methods (d : SharedDeclaration)
    (methods : OrderedMap Label (Handle .method)) (other : sort ≠ .method) :
    listed { d with methods } sort = d.listed sort := by
  cases sort with
  | method => exact absurd rfl other
  | constant | property => rfl

end SharedDeclaration

namespace Store

variable {store after : Store} {h : Handle .classType}

theorem held_collection (store : Store) (h : Handle .classType) (sort : MemberSort) :
    store.held (sort.collection h) = (store.classes.get h).declaration.listed sort := by
  cases sort <;> rfl

theorem declaration_changeClass (made : store.classes.Has h)
    (change : SharedDeclaration → SharedDeclaration) :
    ((store.changeClass h change).classes.get h).declaration =
      change (store.classes.get h).declaration := by
  rw [changeClass]
  dsimp only
  rw [Arena.get_set_self made]

/-! ### Names of members, when another one is added -/

variable {value : Value}

theorem nameOf_addConstant (has : store.Made value) (constant : Constant) :
    (store.addConstant constant).1.nameOf value = store.nameOf value := by
  cases value with
  | constant c => exact congrArg (fun c : Constant => c.name.text) (Arena.get_push_of_has has _)
  | _ => rfl

theorem nameOf_addProperty (has : store.Made value) (property : Property) :
    (store.addProperty property).1.nameOf value = store.nameOf value := by
  cases value with
  | property p => exact congrArg (fun p : Property => p.name.text) (Arena.get_push_of_has has _)
  | _ => rfl

theorem nameOf_addMethod (has : store.Made value) (method : Method (Handle .parameter)) :
    (store.addMethod method).1.nameOf value = store.nameOf value := by
  cases value with
  | method m =>
      exact congrArg (fun m : Method (Handle .parameter) => m.name.text)
        (Arena.get_push_of_has has _)
  | _ => rfl

end Store

/-- What is written under a label is written under its text. -/
theorem OrderedMap.map_upsert_label {α : Type} (wrap : α → Value) (map : OrderedMap Label α)
    (label : Label) (member : α) :
    (map.upsert label member).entries.map (fun entry => (entry.1.word.toText, wrap entry.2)) =
      Entries.upsert (· == ·) label.word.toText (wrap member)
        (map.entries.map fun entry => (entry.1.word.toText, wrap entry.2)) :=
  @Entries.map_upsert _ _ _ _ (· == ·) (· == ·) (fun label => label.word.toText) (fun _ _ => rfl)
    wrap label member map.entries

namespace Store

variable {store after : Store} {h : Handle .classType}

/-! ## Drafts of constants -/

/-- What an entry is made into: a constant stays the one it is, and a value under a name becomes a
new one. -/
inductive Drafted (store : Store) :
    Option Value × Value → Except Fault (Draft .constant Constant) → Prop
  | ready (key : Option Value) (c : Handle .constant) :
      Drafted store (key, .constant c) (.ok (.existing c))
  | made {label : Label} {value : Value} {constant : Constant}
      (makes : store.nodes.Makes Constant.build Constant.name Constant.value (.word label.word)
        value constant) (other : value.sort? ≠ some .constant) :
      Drafted store (some (.word label.word), value) (.ok (.new constant))
  | unkeyed {key : Option Value} {value : Value} (none : key = none ∨ key = some .null)
      (other : value.sort? ≠ some .constant) : Drafted store (key, value) (.error .notConstants)
  | unnamed {key value : Value} (malformed : key.isIdentifier = false)
      (other : value.sort? ≠ some .constant) :
      Drafted store (some key, value) (.error (.invalidName .member key))
  | undumped {key value : Value} {fault : DumpFault}
      (refused : store.nodes.dump .standard value = .error fault)
      (other : value.sort? ≠ some .constant) :
      Drafted store (some key, value) (.error (.notDumpable fault))

theorem drafted (store : Store) (entry : Option Value × Value) :
    store.Drafted entry (store.constantDraft entry) := by
  have apart {value : Value} (other : ∀ c, value = .constant c → False) :
      value.sort? ≠ some .constant := by
    cases value with
    | constant c => exact absurd rfl (other c)
    | _ => simp [Value.sort?]
  unfold constantDraft
  split
  next key c => exact .ready key c
  next value other => exact .unkeyed (.inl rfl) (apart other)
  next value other => exact .unkeyed (.inr rfl) (apart other)
  next key value ready _ =>
    obtain ⟨label, rfl, named⟩ | ⟨malformed, refused⟩ := Value.checkMemberName_cases key
    · rw [named, Value.checkLiteral_eq]
      cases dumped : store.nodes.literal? value with
      | ok literal => exact .made (Graph.makes_constant dumped) (apart ready)
      | error fault => exact .undumped (Graph.dump_eq_error_iff.2 dumped) (apart ready)
    · rw [refused]
      exact .unnamed malformed (apart ready)

end Store

end PhpDecl
