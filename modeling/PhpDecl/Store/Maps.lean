import PhpDecl.Store.Members

/-!
# Operations on maps

A map keeps its values in the order in which their keys were first written.
-/

namespace PhpDecl

namespace Op

def newMap (kind : String) : Op Value := do
  let store ← get
  set { store with maps := store.maps.push ⟨kind, []⟩ }
  return .map store.maps.next

def changeMap (h : Handle .map) (change : List (Value × Value) → List (Value × Value)) :
    Op Unit :=
  modify fun store =>
    let map := store.maps.get h
    { store with maps := store.maps.set h { map with items := change map.items } }

def upsert (h : Handle .map) (key value : Value) : Op Value := do
  checkKey key
  let same := (← get).nodes.sameKey
  changeMap h (Entries.upsert same key value)
  return value

def find (h : Handle .map) (key : Value) : Op Value := do
  checkKey key
  let store ← get
  let map := store.maps.get h
  match Entries.find? store.nodes.sameKey key map.items with
  | some value => return value
  | none => refuse (.notFound map.kind key)

/-- Whether a map has a key. -/
def hasKey (h : Handle .map) (key : Value) : Op Bool := do
  checkKey key
  let store ← get
  return (Entries.find? store.nodes.sameKey key (store.maps.get h).items).isSome

/-- The two items of an item that stands for a key and its value. -/
def pairAt (position : Nat) (item : Value) : Op (Value × Value) := do
  let parts ← tryCatch (items item) fun _ => throw (.notPair position)
  match parts with
  | [key, value] =>
      checkKey key
      return (key, value)
  | _ => throw (.notTwo position parts.length)

/-- The pairs that the items of a list stand for, from the first on. -/
def pairsFrom (position : Nat) : List Value → Op (List (Value × Value))
  | [] => return []
  | item :: rest => do
      let pair ← pairAt position item
      return pair :: (← pairsFrom (position + 1) rest)

/-- The entries of a dictionary, or of another value whose items are pairs. -/
def entriesOf (value : Value) : Op (List (Value × Value)) := do
  match ← node? value with
  | some (.dict entries) => return entries
  | _ =>
      let pairs ← pairsFrom 0 (← items value)
      return Entries.ofList (← get).nodes.sameKey pairs

def replace (h : Handle .map) (members : Value) : Op Unit := do
  let entries ← entriesOf members
  changeMap h fun _ => entries

end Op

end PhpDecl
