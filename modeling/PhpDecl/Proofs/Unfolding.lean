import PhpDecl.Value.Spelling

/-!
# Spelling out, whatever the integers

`Graph.unfold` spells out a value and does not look at its integers: there is no bound on their
digits. That is what the value is spelled out as within a bound, wherever it is not refused there
(`Graph.unfold_of_spell`). Without the question which keys are written, entries are spelled out one
by one.
-/

namespace PhpDecl

namespace Literal

mutual

/-- Without a bound there is nothing to go beyond. -/
theorem isBrief_none : ∀ literal : Literal, literal.isBrief none = true
  | .atom a => by cases a <;> rfl
  | .list items | .tuple items => areBrief_none items
  | .dict entries => entriesAreBrief_none 0 entries

theorem areBrief_none : ∀ items : List Literal, areBrief none items = true
  | [] => rfl
  | item :: rest => by rw [areBrief, isBrief_none item, areBrief_none rest]; rfl

theorem entriesAreBrief_none (next : Int) :
    ∀ entries : List (Literal × Literal), entriesAreBrief none next entries = true
  | [] => rfl
  | (key, item) :: rest => by
      rw [entriesAreBrief, isBrief_none key, isBrief_none item, entriesAreBrief_none _ rest]
      simp

end

end Literal

namespace Graph

/-- Spell out an entry with a way of spelling out values. The item comes before the key. -/
def unfoldEntry (spell : Value → Except DumpFault Literal) (entry : Value × Value) :
    Except DumpFault (Literal × Literal) := do
  let item ← spell entry.2
  let key ← spell entry.1
  return (key, item)

/-- Spell out a value whose containers stand at most `depth` deep inside one another, with integers
of any length. -/
def unfold (graph : Graph) : Nat → Value → Except DumpFault Literal
  | _, .atom a => .ok (.atom a)
  | depth, .node h =>
      match depth, graph.get h with
      | _, .set _ => .error (.unsupported .set)
      | 0, _ => .error .tooDeep
      | depth + 1, .list items => do return .list (← items.mapM (graph.unfold depth))
      | depth + 1, .tuple items => do return .tuple (← items.mapM (graph.unfold depth))
      | depth + 1, .dict entries => do
          return .dict (← entries.mapM (unfoldEntry (graph.unfold depth)))
  | _, value => .error (.unsupported (graph.typeOf value))

/-- What spelling out an entry gives was spelled out from its key and its item. -/
theorem spelled_of_unfoldEntry {spell : Value → Except DumpFault Literal}
    {entry : Value × Value} {result : Literal × Literal}
    (h : unfoldEntry spell entry = .ok result) :
    spell entry.1 = .ok result.1 ∧ spell entry.2 = .ok result.2 := by
  obtain ⟨item, second, h⟩ := exists_of_bind h
  obtain ⟨key, first, h⟩ := exists_of_bind h
  cases h
  exact ⟨first, second⟩

variable {graph : Graph} {bound : DigitBound} {depth : Nat} {value : Value} {literal : Literal}

/-- Items are spelled out alike where each of them is. -/
theorem mapM_of_spell {spell other : Value → Except DumpFault Literal}
    (each : ∀ {value literal}, spell value = .ok literal → other value = .ok literal)
    {values : List Value} {literals : List Literal} (all : values.mapM spell = .ok literals) :
    values.mapM other = .ok literals := by
  induction values generalizing literals with
  | nil => exact all
  | cons value rest ih =>
      obtain ⟨literal, others, first, tail, rfl⟩ := exists_of_mapM_cons all
      rw [List.mapM_cons, each first, ih tail]
      rfl

/-- Entries are spelled out alike where their keys and items are, and every integer as itself. -/
theorem mapM_of_spellEntries {spell other : Value → Except DumpFault Literal}
    (each : ∀ {value literal}, spell value = .ok literal → other value = .ok literal)
    (counted : ∀ n, other (.atom (.int n)) = .ok (.atom (.int n))) {next : Int}
    {values : List (Value × Value)} {literals : List (Literal × Literal)}
    (all : spellEntries spell next values = .ok literals) :
    values.mapM (unfoldEntry other) = .ok literals := by
  induction values generalizing next literals with
  | nil => exact all
  | cons entry rest ih =>
      obtain ⟨written, spelled, others, item, key, tail, rfl⟩ := exists_of_spellEntries_cons all
      have key : other entry.1 = .ok written := by
        rw [spellKey] at key
        by_cases omitted : entry.1.intKey? = some next
        · rw [if_pos omitted] at key
          cases key
          rw [Value.eq_of_intKey? omitted]
          exact counted next
        · rw [if_neg omitted] at key
          exact each key
      rw [List.mapM_cons, unfoldEntry, key, each item, ih tail]
      rfl

theorem eq_of_spellAtom {a : Atom} (spelled : spellAtom bound a = .ok literal) :
    literal = .atom a := by
  unfold spellAtom at spelled
  split at spelled <;> cases spelled
  rfl

/-- What is spelled out within a bound is the same without one. -/
theorem unfold_of_spell (spelled : graph.spell bound depth value = .ok literal) :
    graph.unfold depth value = .ok literal := by
  induction depth generalizing value literal with
  | zero =>
      cases value with
      | atom a => rw [eq_of_spellAtom spelled, unfold]
      | node h => cases content : graph.get h <;> simp [spell, content] at spelled
      | _ => cases spelled
  | succ depth ih =>
      cases value with
      | atom a => rw [eq_of_spellAtom spelled, unfold]
      | node h =>
          rw [spell.eq_def] at spelled
          rw [unfold.eq_def]
          cases content : graph.get h with
          | set items => simp [content] at spelled
          | list items | tuple items =>
              simp only [content] at spelled ⊢
              obtain ⟨literals, all, spelled⟩ := exists_of_bind spelled
              rw [mapM_of_spell ih all]
              exact spelled
          | dict entries =>
              simp only [content] at spelled ⊢
              obtain ⟨literals, all, spelled⟩ := exists_of_bind spelled
              rw [mapM_of_spellEntries ih (fun n => by rw [unfold]) all]
              exact spelled
      | _ => cases spelled

/-! ## What is refused within a bound alone -/

theorem intKey?_of_unfold (spelled : graph.unfold depth value = .ok literal) :
    literal.intKey? = value.intKey? := by
  cases value with
  | atom a =>
      rw [unfold] at spelled
      cases spelled
      cases a <;> rfl
  | node h =>
      rw [unfold.eq_def] at spelled
      cases depth with
      | zero => cases content : graph.get h <;> simp [content] at spelled
      | succ depth =>
          cases content : graph.get h with
          | set items => simp [content] at spelled
          | list items | tuple items | dict entries =>
              simp only [content] at spelled
              obtain ⟨literals, -, spelled⟩ := exists_of_bind spelled
              cases spelled
              rfl
  | _ =>
      rw [unfold.eq_def] at spelled
      cases spelled

theorem mapM_of_brief {other spell : Value → Except DumpFault Literal}
    (each : ∀ {value literal}, other value = .ok literal → literal.isBrief bound = true →
      spell value = .ok literal) {values : List Value} {literals : List Literal}
    (all : values.mapM other = .ok literals) (brief : Literal.areBrief bound literals = true) :
    values.mapM spell = .ok literals := by
  induction values generalizing literals with
  | nil => exact all
  | cons value rest ih =>
      obtain ⟨literal, others, first, tail, rfl⟩ := exists_of_mapM_cons all
      obtain ⟨here, brief⟩ := Bool.and_eq_true_iff.1 brief
      rw [List.mapM_cons, each first here, ih tail brief]
      rfl

theorem spellEntries_of_brief {other spell : Value → Except DumpFault Literal}
    (each : ∀ {value literal}, other value = .ok literal → literal.isBrief bound = true →
      spell value = .ok literal)
    (keyed : ∀ {value literal}, other value = .ok literal → literal.intKey? = value.intKey?)
    {next : Int} {values : List (Value × Value)} {literals : List (Literal × Literal)}
    (all : values.mapM (unfoldEntry other) = .ok literals)
    (brief : Literal.entriesAreBrief bound next literals = true) :
    spellEntries spell next values = .ok literals := by
  induction values generalizing next literals with
  | nil => exact all
  | cons entry rest ih =>
      obtain ⟨⟨written, spelled⟩, others, first, tail, rfl⟩ := exists_of_mapM_cons all
      obtain ⟨key, item⟩ := spelled_of_unfoldEntry first
      dsimp only at key item
      obtain ⟨here, brief⟩ := Bool.and_eq_true_iff.1 brief
      obtain ⟨keyBrief, itemBrief⟩ := Bool.and_eq_true_iff.1 here
      have counted : written.nextKey next = entry.1.nextKey next := nextKey_eq next (keyed key)
      have taken : spellKey spell next entry.1 = .ok written := by
        rw [spellKey]
        by_cases omitted : entry.1.intKey? = some next
        · rw [if_pos omitted, Literal.eq_of_intKey? ((keyed key).trans omitted)]
        · have short := (Bool.or_eq_true_iff.1 keyBrief).resolve_left fun same =>
            omitted ((keyed key).symm.trans (beq_iff_eq.1 same))
          rw [if_neg omitted, each key short]
      rw [spellEntries, each item itemBrief, taken, ← counted, ih tail brief]
      rfl

/-- Within a bound the same is spelled out as without one, unless an integer goes beyond it. -/
theorem spell_eq_ok_iff : graph.spell bound depth value = .ok literal ↔
    graph.unfold depth value = .ok literal ∧ literal.isBrief bound = true := by
  refine ⟨fun spelled => ⟨unfold_of_spell spelled, (spelled_of_spell spelled).brief⟩, ?_⟩
  rintro ⟨spelled, brief⟩
  have atomic {a : Atom} {depth : Nat} {literal : Literal} (brief : literal.isBrief bound = true)
      (spelled : graph.unfold depth (.atom a) = .ok literal) :
      graph.spell bound depth (.atom a) = .ok literal := by
    rw [unfold] at spelled
    cases spelled
    rw [Literal.isBrief, Option.isNone_iff_eq_none] at brief
    rw [spell, spellAtom, brief]
  induction depth generalizing value literal with
  | zero =>
      cases value with
      | atom a => exact atomic brief spelled
      | node h => cases content : graph.get h <;> simp [unfold, content] at spelled
      | _ => cases spelled
  | succ depth ih =>
      cases value with
      | atom a => exact atomic brief spelled
      | node h =>
          rw [unfold.eq_def] at spelled
          rw [spell.eq_def]
          cases content : graph.get h with
          | set items => simp [content] at spelled
          | list items | tuple items =>
              simp only [content] at spelled ⊢
              obtain ⟨literals, all, spelled⟩ := exists_of_bind spelled
              cases spelled
              rw [mapM_of_brief (fun spelled brief => ih spelled brief) all brief]
              rfl
          | dict entries =>
              simp only [content] at spelled ⊢
              obtain ⟨literals, all, spelled⟩ := exists_of_bind spelled
              cases spelled
              rw [spellEntries_of_brief (fun spelled brief => ih spelled brief) intKey?_of_unfold
                all brief]
              rfl
      | _ => cases spelled

theorem spell_none_of_unfold (spelled : graph.unfold depth value = .ok literal) :
    graph.spell none depth value = .ok literal :=
  spell_eq_ok_iff.2 ⟨spelled, literal.isBrief_none⟩

end Graph

end PhpDecl
