import PhpDecl.Declaration.Printer
import PhpDecl.Fault
import PhpDecl.Value.Key

/-!
# The store

The objects of a session. A declaration refers to its members, which may be shared, and keeps
the values given for its two flags and its comment as they are; `Store.plain` is the declaration
as it stands at the moment, with its members in place, its flags read as truth values and its
comment read as a text. A member may carry private notes, which are kept and never written.

An operation is a state transition that may be refused. What was changed before a refusal stays
changed, so an operation that must change nothing makes all its checks first.

A comment that is neither a text nor counts as false leaves a declaration without a text. Then a
refusal that has to name the declaration is itself refused, for the reason why there is no text.
-/

namespace PhpDecl

abbrev SharedDeclaration :=
  Declaration Value Value (Handle .constant) (Handle .property) (Handle .method)

/-- A declaration and the namespace that it was made in, while that namespace is held. -/
structure ClassObject where
  declaration : SharedDeclaration
  scope : Option (Handle .scope)

instance : Inhabited ClassObject := ⟨⟨.blank (.bool false) .null, none⟩⟩

/-- A free-standing map of values, of which the kind is named when a key is not found. -/
structure MapObject where
  kind : String
  items : List (Value × Value)

instance : Inhabited MapObject := ⟨⟨"", []⟩⟩

/-- All objects. -/
structure Store where
  nodes : Graph
  scopes : Arena .scope Namespace
  shorteners : Arena .shortener (OrderedMap String String)
  classes : Arena .classType ClassObject
  constants : Arena .constant Constant
  properties : Arena .property Property
  parameters : Arena .parameter Parameter
  methods : Arena .method (Method (Handle .parameter))
  maps : Arena .map MapObject
  /-- The private notes of members, by member and name. -/
  notes : List ((Value × String) × Value)
  /-- How many bare identities and NaNs there are. -/
  tokens : Nat

namespace Store

/-- The store without objects. -/
def empty : Store :=
  ⟨.empty, .empty, .empty, .empty, .empty, .empty, .empty, .empty, .empty, [], 0⟩

def typeOf (store : Store) (value : Value) : TypeTag := store.nodes.typeOf value

def plainMethod (store : Store) (h : Handle .method) : Method Parameter :=
  (store.methods.get h).mapParameters store.parameters.get

/-- Whether an atom counts as true. -/
def truthOfAtom : Atom → Bool
  | .null => false
  | .bool b => b
  | .int n => n != 0
  | .float x => x.toInt? != some 0
  | .word w => !w.toText.isEmpty
  | .code _ => true

/-- Whether a value counts as true: null, zero and everything empty do not. -/
def truth (store : Store) : Value → Bool
  | .atom a => truthOfAtom a
  | .node h =>
      match store.nodes.get h with
      | .list items | .tuple items | .set items => !items.isEmpty
      | .dict entries => !entries.isEmpty
  | .bytes content => !content.isEmpty
  | .map h => !(store.maps.get h).items.isEmpty
  | _ => true

/-- A declaration as it stands at the moment. Nothing but a text is read as its comment. -/
def plain (store : Store) (h : Handle .classType) : PlainDeclaration :=
  (store.classes.get h).declaration.map store.truth Value.word? store.constants.get
    store.properties.get store.plainMethod

/-- The short names of the namespace that a declaration was made in, while it is held. -/
def ownShortener (store : Store) (h : Handle .classType) : Shortener :=
  match (store.classes.get h).scope with
  | some scope => .ofNamespace (store.scopes.get scope)
  | none => .full

def shortener? (store : Store) : Value → Option Shortener
  | .scope h => some (.ofNamespace (store.scopes.get h))
  | .shortener h => some (.ofTable (store.shorteners.get h))
  | _ => none

/-- The text of a declaration, with the names of its own namespace unless others are given. -/
def renderClass (store : Store) (h : Handle .classType) (shortener : Option Shortener)
    (layout : Layout) : List Char :=
  (store.plain h).render (shortener.getD (store.ownShortener h)) layout

/-- A value read as a text that another one is put behind: whatever counts as false is read as
the empty text, and nothing else but a text is read. -/
def baseText (store : Store) (value : Value) : Except Fault String :=
  match value.word? with
  | some word => .ok word.toText
  | none =>
      if store.truth value then .error (.notJoined (store.typeOf value) .text) else .ok ""

def classComment (store : Store) (h : Handle .classType) : Except Fault String :=
  store.baseText (store.classes.get h).declaration.comment

/-- Refuse a value that has no text: a declaration that has no comment to write. -/
def checkText (store : Store) : Value → Except Fault Unit
  | .classType h => do
      let _ ← store.classComment h
  | _ => .ok ()

/-- The fault that is met when a fault is worded: the fault itself, or the reason why the value
in its wording has no text. -/
def refusal (store : Store) (fault : Fault) : Fault :=
  match fault.quoted?.map store.checkText with
  | some (.error cause) => cause
  | _ => fault

end Store

abbrev Op := EStateM Fault Store

namespace Op

/-- Refuse a request, with a fault that can be worded. -/
def refuse {α : Type} (fault : Fault) : Op α := do throw ((← get).refusal fault)

def ofExcept {α : Type} : Except Fault α → Op α
  | .ok a => pure a
  | .error fault => refuse fault

def newNode (node : Node) : Op Value := do
  let store ← get
  set { store with nodes := store.nodes.push node }
  return .node store.nodes.next

def embed (literal : Literal) : Op Value := do
  let store ← get
  let (nodes, value) := store.nodes.embed literal
  set { store with nodes }
  return value

/-- The container that a value is, if it is one. -/
def node? (value : Value) : Op (Option Node) := do
  match value with
  | .node h => return some ((← get).nodes.get h)
  | _ => return none

def checkKey (value : Value) : Op Unit := do
  match (← get).nodes.unkeyable? value with
  | some type => throw (.notKey type)
  | none => return

/-- A value read as a text that is put behind another one. -/
def addedText (value : Value) : Op String := do
  match value.word? with
  | some word => return word.toText
  | none => throw (.notJoined .text ((← get).typeOf value))

end Op

end PhpDecl
