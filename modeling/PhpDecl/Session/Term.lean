import PhpDecl.Store

/-!
# Terms

A term spells out a value: it may build containers, name one before its content so that the
content can hold it, and use the variables of a session. Evaluating a term adds its containers
to the store, and makes every NaN and every bare identity in it a new one. What stands for a
key in it has to be one.
-/

namespace PhpDecl

/-- A value, spelled out. -/
inductive Term
  | atom (a : Atom)
  | bytes (content : List UInt8)
  /-- A new thing with nothing but its identity. -/
  | token
  | list (items : List Term)
  | tuple (items : List Term)
  | set (items : List Term)
  | dict (entries : List (Term × Term))
  /-- A list with a name for itself. -/
  | namedList (name : String) (items : List Term)
  /-- A dictionary with a name for itself. -/
  | namedDict (name : String) (entries : List (Term × Term))
  /-- The container of a name. -/
  | named (name : String)
  | bound (name : String)

instance : Inhabited Term := ⟨.atom .null⟩

/-- The values of names, of which the latest counts. -/
abbrev Names := List (String × Value)

/-- The value of a name, if it has one. -/
def Names.find? (names : Names) (name : String) : Option Value := List.lookup name names

def Names.find (names : Names) (name : String) : Op Value :=
  match names.find? name with
  | some value => pure value
  | none => throw (.unbound name)

/-- An evaluation: an operation that knows the containers named so far. -/
abbrev Evaluation := StateT Names Op

namespace Evaluation

/-- A container that has its content still to come, under a name. -/
def reserve (name : String) (empty : Node) : Evaluation (Handle .node) := do
  let store ← getThe Store
  let h := store.nodes.next
  let value ← Op.newNode empty
  modify ((name, value) :: ·)
  return h

def fill (h : Handle .node) (node : Node) : Evaluation Value := do
  modifyThe Store fun store => { store with nodes := store.nodes.set h node }
  return .node h

/-- A number that was never given out before. -/
def newSerial : Evaluation Nat := do
  let store ← getThe Store
  set { store with tokens := store.tokens + 1 }
  return store.tokens

/-- An atom as a value. A NaN that is spelled out is a new one. -/
def ofAtom : Atom → Evaluation Value
  | .float x => do
      if x.isNaN then return .atom (.float (.nan (← newSerial))) else return .atom (.float x)
  | a => return .atom a

end Evaluation

namespace Term

open Evaluation

mutual

def eval (bindings : Names) : Term → Evaluation Value
  | .atom a => ofAtom a
  | .bytes content => pure (.bytes content)
  | .token => do return .token (← newSerial)
  | .list items => do Op.newNode (.list (← evalAll bindings items))
  | .tuple items => do Op.newNode (.tuple (← evalAll bindings items))
  | .set items => do
      let items ← evalKeys bindings items
      Op.newNode ((← getThe Store).nodes.setOf items)
  | .dict entries => do
      let entries ← evalEntries bindings entries
      Op.newNode ((← getThe Store).nodes.dictOf entries)
  | .namedList name items => do
      let h ← reserve name (.list [])
      fill h (.list (← evalAll bindings items))
  | .namedDict name entries => do
      let h ← reserve name (.dict [])
      let entries ← evalEntries bindings entries
      fill h ((← getThe Store).nodes.dictOf entries)
  | .named name => do (← getThe Names).find name
  | .bound name => bindings.find name

/-- Evaluate terms from the first on. -/
def evalAll (bindings : Names) : List Term → Evaluation (List Value)
  | [] => pure []
  | item :: rest => do
      let value ← eval bindings item
      return value :: (← evalAll bindings rest)

/-- Evaluate the items of a set from the first on. Each has to be a key. -/
def evalKeys (bindings : Names) : List Term → Evaluation (List Value)
  | [] => pure []
  | item :: rest => do
      let value ← eval bindings item
      Op.checkKey value
      return value :: (← evalKeys bindings rest)

/-- Evaluate keys and items from the first entry on. -/
def evalEntries (bindings : Names) : List (Term × Term) → Evaluation (List (Value × Value))
  | [] => pure []
  | (key, item) :: rest => do
      let key ← eval bindings key
      let item ← eval bindings item
      Op.checkKey key
      return (key, item) :: (← evalEntries bindings rest)

end

end Term

end PhpDecl
