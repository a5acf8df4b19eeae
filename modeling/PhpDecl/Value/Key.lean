import PhpDecl.Value

/-!
# When two values are one key

Keys of dictionaries are compared by what they say: numbers by their value, whatever their
type, texts by their characters, code by its text, tuples item by item. Everything else, and
every NaN, is the same as itself alone. Containers that may change, and members, are no keys.
-/

namespace PhpDecl

namespace Atom

/-- The integer that an atom is equal to, if there is one. -/
def toInt? : Atom → Option Int
  | .bool b => some (if b then 1 else 0)
  | .int n => some n
  | .float x => x.toInt?
  | _ => none

/-- Whether two atoms are one key. -/
def sameKey (a b : Atom) : Bool :=
  match a.toInt?, b.toInt? with
  | some m, some n => m == n
  | none, none =>
      match a, b with
      | .null, .null => true
      | .float x, .float y => x == y
      | .word v, .word w => v == w
      | .code s, .code t => s == t
      | _, _ => false
  | _, _ => false

end Atom

namespace Graph

/-- Whether two values are one key, tuples looked into up to a depth. -/
def sameKeyWithin (graph : Graph) : Nat → Value → Value → Bool
  | _, .atom a, .atom b => a.sameKey b
  | _, .supertypes s, .supertypes t => s.sameKey t
  | 0, v, w => v == w
  | depth + 1, .node h, .node k =>
      h == k ||
        match graph.get h, graph.get k with
        | .tuple items, .tuple others =>
            items.length == others.length &&
              (items.zip others).all fun pair => graph.sameKeyWithin depth pair.1 pair.2
        | _, _ => false
  | _, v, w => v == w

/-- Whether two values are one key. Keys hold no cycles, so there are at least as many
containers as they are deep. -/
def sameKey (graph : Graph) (v w : Value) : Bool := graph.sameKeyWithin (graph.size + 1) v w

def dictOf (graph : Graph) (entries : List (Value × Value)) : Node :=
  .dict (Entries.ofList graph.sameKey entries)

/-- The set of values, of which those that are one key are one item. -/
def setOf (graph : Graph) (items : List Value) : Node :=
  .set ((Entries.ofList graph.sameKey (items.map fun item => (item, ()))).map Prod.fst)

/-- The type that keeps a value from being a key, looked for in tuples up to a depth. -/
def unkeyableWithin (graph : Graph) : Nat → Value → Option TypeTag
  | _, .constant _ => some .constant
  | _, .property _ => some .property
  | _, .parameter _ => some .parameter
  | _, .method _ => some .method
  | depth, .node h =>
      match depth, graph.get h with
      | 0, .tuple _ => none
      | depth + 1, .tuple items => items.findSome? (graph.unkeyableWithin depth)
      | _, node => some node.type
  | _, _ => none

/-- The type that keeps a value from being a key, if there is one. -/
def unkeyable? (graph : Graph) (value : Value) : Option TypeTag :=
  graph.unkeyableWithin (graph.size + 1) value

end Graph

end PhpDecl
