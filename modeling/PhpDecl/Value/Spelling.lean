import PhpDecl.Literal.Printer
import PhpDecl.Value

/-!
# From the graph of values to literals

A value of the graph can be written when every path from it through items and keys ends, within
the depth that is written, at an atom, and no integer on the way is too long to be written.
`Graph.spell` follows all of these paths and gives the literal that they spell out; shared
containers are spelled out as often as they occur. A value that holds itself has a path that is too
deep. What is refused is refused for the first fault on the way. `Graph.embed` goes the other way.
-/

namespace PhpDecl

inductive DumpFault
  /-- Containers stand too deep inside one another, or a container holds itself. -/
  | tooDeep
  | unsupported (type : TypeTag)
  /-- An integer that is to be written has more digits than that. -/
  | tooLong (most : Nat)
  deriving DecidableEq, Repr

namespace Graph

def spellAtom (bound : DigitBound) (a : Atom) : Except DumpFault Literal :=
  match a.exceeded? bound with
  | none => .ok (.atom a)
  | some most => .error (.tooLong most)

/-- Spell out a key, where the reader supplies `next` if none is written. A key that the reader
supplies is not written, and so of any length. -/
def spellKey (spell : Value → Except DumpFault Literal) (next : Int) (key : Value) :
    Except DumpFault Literal :=
  if key.intKey? = some next then .ok (.atom (.int next)) else spell key

/-- Spell out entries with a way of spelling out values. The item comes before the key. -/
def spellEntries (spell : Value → Except DumpFault Literal) (next : Int) :
    List (Value × Value) → Except DumpFault (List (Literal × Literal))
  | [] => .ok []
  | (key, item) :: rest => do
      let item ← spell item
      let written ← spellKey spell next key
      let others ← spellEntries spell (key.nextKey next) rest
      return (written, item) :: others

/-- Spell out a value whose containers stand at most `depth` deep inside one another. -/
def spell (graph : Graph) (bound : DigitBound) : Nat → Value → Except DumpFault Literal
  | _, .atom a => spellAtom bound a
  | depth, .node h =>
      match depth, graph.get h with
      | _, .set _ => .error (.unsupported .set)
      | 0, _ => .error .tooDeep
      | depth + 1, .list items => do return .list (← items.mapM (graph.spell bound depth))
      | depth + 1, .tuple items => do return .tuple (← items.mapM (graph.spell bound depth))
      | depth + 1, .dict entries => do
          return .dict (← spellEntries (graph.spell bound depth) 0 entries)
  | _, value => .error (.unsupported (graph.typeOf value))

/-- What a value is spelled out as is the same integer, if it is one, and within both bounds. -/
structure Spelled (bound : DigitBound) (depth : Nat) (value : Value) (literal : Literal) :
    Prop where
  key : literal.intKey? = value.intKey?
  shallow : literal.nesting ≤ depth
  brief : literal.isBrief bound = true

theorem exists_of_bind {α β ε : Type} {result : Except ε α} {next : α → Except ε β} {b : β}
    (h : result >>= next = .ok b) : ∃ a, result = .ok a ∧ next a = .ok b := by
  cases result with
  | error fault => cases h
  | ok a => exact ⟨a, rfl, h⟩

theorem exists_of_mapM_cons {α β ε : Type} {f : α → Except ε β} {a : α} {rest : List α}
    {results : List β} (all : (a :: rest).mapM f = .ok results) :
    ∃ b others, f a = .ok b ∧ rest.mapM f = .ok others ∧ results = b :: others := by
  rw [List.mapM_cons] at all
  obtain ⟨b, first, all⟩ := exists_of_bind all
  obtain ⟨others, tail, all⟩ := exists_of_bind all
  cases all
  exact ⟨b, others, first, tail, rfl⟩

/-- Entries are spelled out from each item and each key. -/
theorem exists_of_spellEntries_cons {spell : Value → Except DumpFault Literal} {next : Int}
    {entry : Value × Value} {rest : List (Value × Value)} {entries : List (Literal × Literal)}
    (all : spellEntries spell next (entry :: rest) = .ok entries) :
    ∃ written spelled others, spell entry.2 = .ok spelled ∧
      spellKey spell next entry.1 = .ok written ∧
      spellEntries spell (entry.1.nextKey next) rest = .ok others ∧
      entries = (written, spelled) :: others := by
  obtain ⟨spelled, first, all⟩ := exists_of_bind all
  obtain ⟨written, second, all⟩ := exists_of_bind all
  obtain ⟨others, third, all⟩ := exists_of_bind all
  cases all
  exact ⟨written, spelled, others, first, second, third, rfl⟩

/-- The reader goes on in the same way behind a key and its literal. -/
theorem nextKey_eq {key : Value} {literal : Literal} (next : Int)
    (same : literal.intKey? = key.intKey?) : literal.nextKey next = key.nextKey next := by
  cases value : key.intKey? <;> simp only [Value.nextKey, Literal.nextKey, same, value]

namespace Spelled

variable {bound : DigitBound} {depth : Nat} {spell : Value → Except DumpFault Literal}

theorem atom {a : Atom} {literal : Literal} (spelled : spellAtom bound a = .ok literal) :
    Spelled bound depth (.atom a) literal := by
  unfold spellAtom at spelled
  split at spelled
  next brief =>
    cases spelled
    refine ⟨?_, Nat.zero_le _, by simp [Literal.isBrief, brief]⟩
    cases a <;> rfl
  next => cases spelled

/-- Items that are each within the bounds are so together. -/
theorem items (each : ∀ {value literal}, spell value = .ok literal →
      Spelled bound depth value literal) {values : List Value} {literals : List Literal}
    (all : values.mapM spell = .ok literals) :
    Literal.nestingItems literals ≤ depth ∧ Literal.areBrief bound literals = true := by
  induction values generalizing literals with
  | nil =>
      cases all
      exact ⟨Nat.zero_le _, rfl⟩
  | cons value rest ih =>
      obtain ⟨literal, others, first, tail, rfl⟩ := exists_of_mapM_cons all
      obtain ⟨shallow, brief⟩ := ih tail
      have here := each first
      exact ⟨Nat.max_le.2 ⟨here.shallow, shallow⟩, by simp [Literal.areBrief, here.brief, brief]⟩

/-- Entries whose keys and items are each within the bounds are so together. -/
theorem entries (each : ∀ {value literal}, spell value = .ok literal →
      Spelled bound depth value literal) {next : Int} {values : List (Value × Value)}
    {literals : List (Literal × Literal)} (all : spellEntries spell next values = .ok literals) :
    Literal.nestingEntries literals ≤ depth ∧
      Literal.entriesAreBrief bound next literals = true := by
  induction values generalizing next literals with
  | nil =>
      cases all
      exact ⟨Nat.zero_le _, rfl⟩
  | cons entry rest ih =>
      obtain ⟨written, spelled, others, item, key, tail, rfl⟩ := exists_of_spellEntries_cons all
      obtain ⟨shallow, brief⟩ := ih tail
      have here := each item
      rw [Literal.nestingEntries, Literal.entriesAreBrief]
      rw [spellKey] at key
      by_cases omitted : entry.1.intKey? = some next
      · rw [if_pos omitted] at key
        cases key
        have counted : Literal.nextKey next (.atom (.int next)) = entry.1.nextKey next := by
          rw [Value.eq_of_intKey? omitted]
          rfl
        rw [counted]
        exact ⟨Nat.max_le.2 ⟨Nat.max_le.2 ⟨Nat.zero_le _, here.shallow⟩, shallow⟩,
          by simp [Literal.intKey?, here.brief, brief]⟩
      · rw [if_neg omitted] at key
        have there := each key
        rw [nextKey_eq next there.key]
        exact ⟨Nat.max_le.2 ⟨Nat.max_le.2 ⟨there.shallow, here.shallow⟩, shallow⟩,
          by simp [there.brief, here.brief, brief]⟩

end Spelled

/-- What is spelled out stays within its bounds. -/
theorem spelled_of_spell {graph : Graph} {bound : DigitBound} {depth : Nat} {value : Value}
    {literal : Literal} (h : graph.spell bound depth value = .ok literal) :
    Spelled bound depth value literal := by
  induction depth generalizing value literal with
  | zero =>
      cases value with
      | atom a => exact .atom h
      | node node => cases content : graph.get node <;> simp [spell, content] at h
      | _ => cases h
  | succ depth ih =>
      cases value with
      | atom a => exact .atom h
      | node node =>
          rw [spell.eq_def] at h
          cases content : graph.get node with
          | set items => simp [content] at h
          | list items | tuple items =>
              simp only [content] at h
              obtain ⟨literals, all, h⟩ := exists_of_bind h
              cases h
              obtain ⟨shallow, brief⟩ := Spelled.items ih all
              exact ⟨rfl, Nat.succ_le_succ shallow, brief⟩
          | dict entries =>
              simp only [content] at h
              obtain ⟨literals, all, h⟩ := exists_of_bind h
              cases h
              obtain ⟨shallow, brief⟩ := Spelled.entries ih all
              exact ⟨rfl, Nat.succ_le_succ shallow, brief⟩
      | _ => cases h

/-- The literal that a value spells out, if it can be written. -/
def literal? (graph : Graph) (value : Value) : Except DumpFault ShallowLiteral :=
  match h : graph.spell .standard Literal.maxNesting value with
  | .ok literal => .ok ⟨literal, (spelled_of_spell h).shallow, (spelled_of_spell h).brief⟩
  | .error fault => .error fault

/-- The text of a value, where integers may have as many digits as the bound says. -/
def dumpWithin (graph : Graph) (bound : DigitBound) (layout : Layout) (value : Value) :
    Except DumpFault (List Char) := do
  let literal ← graph.spell bound Literal.maxNesting value
  return literal.text layout

/-- The text of a value. -/
def dump (graph : Graph) (layout : Layout) (value : Value) : Except DumpFault (List Char) :=
  graph.dumpWithin .standard layout value

/-- What is written is the literal that the value spells out. -/
theorem dump_eq (graph : Graph) (layout : Layout) (value : Value) :
    graph.dump layout value = (graph.literal? value).map fun l => l.literal.text layout := by
  unfold dump dumpWithin literal?
  split <;> next spelled => simp only [spelled]; rfl

mutual

def embed (graph : Graph) : Literal → Graph × Value
  | .atom a => (graph, .atom a)
  | .list items =>
      let (graph, values) := embedItems graph items
      (graph.push (.list values), .node graph.next)
  | .tuple items =>
      let (graph, values) := embedItems graph items
      (graph.push (.tuple values), .node graph.next)
  | .dict entries =>
      let (graph, values) := embedEntries graph entries
      (graph.push (.dict values), .node graph.next)

/-- Put literals into the graph, from the first on. -/
def embedItems (graph : Graph) : List Literal → Graph × List Value
  | [] => (graph, [])
  | item :: rest =>
      let (graph, value) := embed graph item
      let (graph, values) := embedItems graph rest
      (graph, value :: values)

/-- Put keys and items into the graph, from the first entry on. -/
def embedEntries (graph : Graph) : List (Literal × Literal) → Graph × List (Value × Value)
  | [] => (graph, [])
  | (key, item) :: rest =>
      let (graph, keyValue) := embed graph key
      let (graph, itemValue) := embed graph item
      let (graph, values) := embedEntries graph rest
      (graph, (keyValue, itemValue) :: values)

end

end Graph

end PhpDecl
