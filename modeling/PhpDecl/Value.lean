import PhpDecl.Arena
import PhpDecl.Declaration

/-!
# Values

The values that a caller hands in and gets back. A value is an atom, or refers to an object:
containers are nodes of a graph, so that they may be shared and may hold themselves, and the
objects of the model are reached by handles of their own.
-/

namespace PhpDecl

inductive Value
  | atom (a : Atom)
  /-- A list, a tuple, a dictionary or a set. -/
  | node (h : Handle .node)
  | bytes (content : List UInt8)
  /-- A thing that has nothing but its identity. -/
  | token (serial : Nat)
  | supertypes (s : Supertypes)
  | scope (h : Handle .scope)
  | shortener (h : Handle .shortener)
  | classType (h : Handle .classType)
  | constant (h : Handle .constant)
  | property (h : Handle .property)
  | parameter (h : Handle .parameter)
  | method (h : Handle .method)
  | map (h : Handle .map)
  deriving DecidableEq

namespace Value

instance : Inhabited Value := ⟨.atom .null⟩

/-- The null value. -/
def null : Value := .atom .null

def bool (b : Bool) : Value := .atom (.bool b)

def word (w : Word) : Value := .atom (.word w)

def text (s : String) : Value := word (.text s)

def optionalText : Option String → Value
  | none => null
  | some s => text s

/-- The word that a value is, if it is one. -/
def word? : Value → Option Word
  | .atom (.word w) => some w
  | _ => none

theorem eq_of_word? {value : Value} {word : Word} (read : value.word? = some word) :
    value = .word word := by
  unfold word? at read
  split at read
  · cases read
    rfl
  · cases read

/-- The integer that a key is, if it is one. -/
def intKey? : Value → Option Int
  | .atom (.int n) => some n
  | _ => none

/-- The integer key that the reader supplies after an entry with this key. -/
def nextKey (next : Int) (key : Value) : Int :=
  match key.intKey? with
  | some n => max (n + 1) next
  | none => next

theorem eq_of_intKey? {key : Value} {n : Int} (same : key.intKey? = some n) :
    key = .atom (.int n) := by
  unfold intKey? at same
  split at same
  · cases same
    rfl
  · cases same

/-- Whether a value may lead on to a namespace. -/
def leadsOn : Value → Bool
  | .atom _ | .bytes _ | .token _ | .supertypes _ | .shortener _ => false
  | _ => true

/-- Whether a value is a bare identifier. -/
def isIdentifier (value : Value) : Bool :=
  match value.word? with
  | some w => Name.isIdentifier w.chars
  | none => false

/-- Whether a value is a qualified name, with a separator in front only where one is allowed. -/
def isNamespaceName (allowLeading : Bool) (value : Value) : Bool :=
  match value.word? with
  | some w => Name.isNamespaceName allowLeading w.chars
  | none => false

end Value

inductive Node
  | list (items : List Value)
  | tuple (items : List Value)
  | dict (entries : List (Value × Value))
  /-- A set, its items in the order in which they are visited. -/
  | set (items : List Value)
  deriving DecidableEq

instance : Inhabited Node := ⟨.list []⟩

def Entries.parts (entries : List (Value × Value)) : List Value :=
  entries.flatMap fun entry => [entry.1, entry.2]

def Node.parts : Node → List Value
  | .list items | .tuple items | .set items => items
  | .dict entries => Entries.parts entries

abbrev Graph := Arena .node Node

inductive TypeTag
  | null
  | bool
  | int
  | float
  | text
  | kind
  | code
  | list
  | tuple
  | dict
  | set
  | bytes
  | token
  | single
  | multiple
  | scope
  | shortener
  | classType
  | constant
  | property
  | parameter
  | method
  | map
  deriving DecidableEq, Repr

/-- Whether values of a type can be held only by keeping them, so that nothing can follow one
without keeping it. -/
def TypeTag.isHeldFast : TypeTag → Bool
  | .null | .bool | .int | .float | .text | .list | .tuple | .dict | .bytes | .token => true
  | _ => false

def TypeTag.label : TypeTag → String
  | .null => "NoneType"
  | .bool => "bool"
  | .int => "int"
  | .float => "float"
  | .text => "str"
  | .kind => "ClassKind"
  | .code => "Literal"
  | .list => "list"
  | .tuple => "tuple"
  | .dict => "dict"
  | .set => "set"
  | .bytes => "bytes"
  | .token => "object"
  | .single => "Single"
  | .multiple => "Multiple"
  | .scope => "Namespace"
  | .shortener => "NameShortener"
  | .classType => "ClassType"
  | .constant => "Constant"
  | .property => "Property"
  | .parameter => "Parameter"
  | .method => "Method"
  | .map => "MemberMap"

def Atom.type : Atom → TypeTag
  | .null => .null
  | .bool _ => .bool
  | .int _ => .int
  | .float _ => .float
  | .word (.text _) => .text
  | .word (.kind _) => .kind
  | .code _ => .code

def Node.type : Node → TypeTag
  | .list _ => .list
  | .tuple _ => .tuple
  | .dict _ => .dict
  | .set _ => .set

def Graph.typeOf (graph : Graph) : Value → TypeTag
  | .atom a => a.type
  | .node h => (graph.get h).type
  | .bytes _ => .bytes
  | .token _ => .token
  | .supertypes (.single _) => .single
  | .supertypes (.multiple _) => .multiple
  | .scope _ => .scope
  | .shortener _ => .shortener
  | .classType _ => .classType
  | .constant _ => .constant
  | .property _ => .property
  | .parameter _ => .parameter
  | .method _ => .method
  | .map _ => .map

end PhpDecl
