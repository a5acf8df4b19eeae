import PhpDecl.Double
import PhpDecl.Word

/-!
# Literals

The values that generated code can hold: an atom, or an array written as a sequence or with its
keys. A key is not written when it is the integer that the reader supplies by itself: one more than
the largest integer key so far.

There are two bounds on what is written. `Literal.nesting` counts how deep arrays stand inside one
another, and `Literal.isBrief` looks at the digits of the integers that are written, of which there
may be any number or up to a bound. A `ShallowLiteral` is within both.
-/

namespace PhpDecl

/-- A value without parts. -/
inductive Atom
  | null
  | bool (b : Bool)
  | int (n : Int)
  | float (x : Double)
  | word (w : Word)
  /-- Code that is written as it stands. -/
  | code (text : String)
  deriving DecidableEq, Repr

/-- How many decimal digits an integer may have to be written, if there is a bound at all. -/
abbrev DigitBound := Option Nat

/-- The usual bound. -/
def DigitBound.standard : DigitBound := some 4300

/-- How many decimal digits an integer has; a sign is none. -/
def digitCount (n : Int) : Nat := (Decimal.digitsOf n.natAbs).length

/-- The bound that an atom goes beyond: an integer with more digits than that. -/
def Atom.exceeded? (bound : DigitBound) : Atom → Option Nat
  | .int n => bound.filter (· < digitCount n)
  | _ => none

inductive Literal
  | atom (a : Atom)
  | list (items : List Literal)
  | tuple (items : List Literal)
  | dict (entries : List (Literal × Literal))

namespace Literal

instance : Inhabited Literal := ⟨.atom .null⟩

/-- Whether the literal is the null value. -/
def isNull : Literal → Bool
  | .atom .null => true
  | _ => false

mutual

/-- How many arrays stand inside one another. -/
def nesting : Literal → Nat
  | .atom _ => 0
  | .list items => nestingItems items + 1
  | .tuple items => nestingItems items + 1
  | .dict entries => nestingEntries entries + 1

def nestingItems : List Literal → Nat
  | [] => 0
  | item :: rest => max (nesting item) (nestingItems rest)

def nestingEntries : List (Literal × Literal) → Nat
  | [] => 0
  | (key, item) :: rest => max (max (nesting key) (nesting item)) (nestingEntries rest)

end

def maxNesting : Nat := 51

mutual

/-- The atoms that stand in a literal, those of all keys among them. -/
def atoms : Literal → List Atom
  | .atom a => [a]
  | .list items => itemAtoms items
  | .tuple items => itemAtoms items
  | .dict entries => entryAtoms entries

def itemAtoms : List Literal → List Atom
  | [] => []
  | item :: rest => atoms item ++ itemAtoms rest

def entryAtoms : List (Literal × Literal) → List Atom
  | [] => []
  | (key, item) :: rest => atoms key ++ atoms item ++ entryAtoms rest

end

/-- The integer that a key is, if it is one. -/
def intKey? : Literal → Option Int
  | .atom (.int n) => some n
  | _ => none

theorem eq_of_intKey? {key : Literal} {n : Int} (same : key.intKey? = some n) :
    key = .atom (.int n) := by
  unfold intKey? at same
  split at same
  · cases same
    rfl
  · cases same

/-- The integer key that the reader supplies after an entry with this key. -/
def nextKey (next : Int) (key : Literal) : Int :=
  match key.intKey? with
  | some n => max (n + 1) next
  | none => next

mutual

/-- Whether no integer that is written goes beyond the bound. -/
def isBrief (bound : DigitBound) : Literal → Bool
  | .atom a => (a.exceeded? bound).isNone
  | .list items => areBrief bound items
  | .tuple items => areBrief bound items
  | .dict entries => entriesAreBrief bound 0 entries

def areBrief (bound : DigitBound) : List Literal → Bool
  | [] => true
  | item :: rest => isBrief bound item && areBrief bound rest

/-- A key that the reader supplies is not written, and so of any length. -/
def entriesAreBrief (bound : DigitBound) (next : Int) : List (Literal × Literal) → Bool
  | [] => true
  | (key, item) :: rest =>
      (key.intKey? == some next || isBrief bound key) && isBrief bound item &&
        entriesAreBrief bound (nextKey next key) rest

end

end Literal

/-- A literal that can be written: its arrays are not nested too deep, and its integers not too
long. -/
structure ShallowLiteral where
  literal : Literal
  shallow : literal.nesting ≤ Literal.maxNesting
  brief : literal.isBrief .standard = true

instance : Inhabited ShallowLiteral := ⟨⟨.atom .null, Nat.zero_le _, rfl⟩⟩

end PhpDecl
