import PhpDecl.Proofs.Reading.Dump

/-!
# Paths through the graph of values

A path leads from a value to a part, to a part of that, and so on. What can be written is said of
paths alone: each leads to an atom, or to a list, a tuple or a dictionary that is not too deep, and
no integer that is written is too long. Where one does not, spelling out meets a fault that stands
at the end of some path.
-/

namespace PhpDecl

/-- The items and the keys that are written, where the reader supplies `next` for the first key if
none is written. The item comes before the key. -/
def Entries.written (next : Int) : List (Value × Value) → List Value
  | [] => []
  | (key, item) :: rest =>
      item :: ((if key.intKey? = some next then [] else [key]) ++ written (key.nextKey next) rest)

/-- The parts of a container that are written, in this order. -/
def Node.written : Node → List Value
  | .list items | .tuple items | .set items => items
  | .dict entries => Entries.written 0 entries

theorem Entries.mem_parts_of_mem_written {next : Int} {entries : List (Value × Value)}
    {part : Value} (member : part ∈ written next entries) : part ∈ parts entries := by
  induction entries generalizing next with
  | nil => cases member
  | cons entry rest ih =>
      rw [written, List.mem_cons, List.mem_append] at member
      rw [parts, List.flatMap_cons, List.mem_append]
      obtain rfl | key | later := member
      · exact .inl (by simp)
      · split at key
        · cases key
        · exact .inl (by simp_all)
      · exact .inr (ih later)

/-- No part is left out but keys that are integers. -/
theorem Entries.mem_written {next : Int} {entries : List (Value × Value)} {part : Value}
    (member : part ∈ parts entries) (other : part.intKey? = none) :
    part ∈ written next entries := by
  induction entries generalizing next with
  | nil => cases member
  | cons entry rest ih =>
      rw [parts, List.flatMap_cons, List.mem_append] at member
      rw [written, List.mem_cons, List.mem_append]
      obtain here | later := member
      · obtain rfl | item := List.mem_cons.1 here
        · exact .inr (.inl (by rw [if_neg (by simp [other])]; exact .head _))
        · exact .inl (List.mem_singleton.1 item)
      · exact .inr (.inr (ih later))

theorem Node.mem_parts_of_mem_written {node : Node} {part : Value}
    (member : part ∈ node.written) : part ∈ node.parts := by
  cases node with
  | dict entries => exact Entries.mem_parts_of_mem_written member
  | _ => exact member

theorem Node.mem_written {node : Node} {part : Value} (member : part ∈ node.parts)
    (other : part.intKey? = none) : part ∈ node.written := by
  cases node with
  | dict entries => exact Entries.mem_written member other
  | _ => exact member

namespace Graph

variable {graph : Graph} {value : Value} {bound : DigitBound} {depth : Nat} {path : List Nat}

/-- The parts of a value. -/
def parts (graph : Graph) : Value → List Value
  | .node h => (graph.get h).parts
  | _ => []

/-- The value that a path leads to. A path says at each step which part to go on with. -/
def at? (graph : Graph) (value : Value) : List Nat → Option Value
  | [] => some value
  | position :: path => (graph.parts value)[position]?.bind (graph.at? · path)

theorem spell_set {h : Handle .node} (type : (graph.get h).type = .set) :
    graph.spell bound depth (.node h) = .error (.unsupported .set) := by
  rw [spell.eq_def]
  cases content : graph.get h with
  | set items => cases depth <;> simp only [content]
  | _ => simp [content, Node.type] at type

theorem spell_zero {h : Handle .node} (type : (graph.get h).type ≠ .set) :
    graph.spell bound 0 (.node h) = .error .tooDeep := by
  rw [spell.eq_def]
  cases content : graph.get h with
  | set items => exact absurd (by rw [content]; rfl) type
  | _ => simp only [content]

theorem spell_list {h : Handle .node} {items : List Value} (content : graph.get h = .list items) :
    graph.spell bound (depth + 1) (.node h) = (items.mapM (graph.spell bound depth)).map .list := by
  rw [spell.eq_def]
  simp only [content]
  cases items.mapM (graph.spell bound depth) <;> rfl

theorem spell_tuple {h : Handle .node} {items : List Value}
    (content : graph.get h = .tuple items) :
    graph.spell bound (depth + 1) (.node h) =
      (items.mapM (graph.spell bound depth)).map .tuple := by
  rw [spell.eq_def]
  simp only [content]
  cases items.mapM (graph.spell bound depth) <;> rfl

theorem spell_dict {h : Handle .node} {entries : List (Value × Value)}
    (content : graph.get h = .dict entries) :
    graph.spell bound (depth + 1) (.node h) =
      (spellEntries (graph.spell bound depth) 0 entries).map .dict := by
  rw [spell.eq_def]
  simp only [content]
  cases spellEntries (graph.spell bound depth) 0 entries <;> rfl

/-! ## What can be written -/

/-- A value that can stand at a level, the topmost of which is 0: an atom, or a list, a tuple or a
dictionary above the level `depth`. -/
def Fits (graph : Graph) (depth level : Nat) : Value → Prop
  | .atom _ => True
  | .node h => (graph.get h).type ≠ .set ∧ level < depth
  | _ => False

/-- The text of a value holds that of the other one, as an item or as a key that is written. -/
inductive Writes (graph : Graph) : Value → Value → Prop
  | here (value : Value) : Writes graph value value
  | part {h : Handle .node} {part target : Value} (type : (graph.get h).type ≠ .set)
      (member : part ∈ (graph.get h).written) (onward : Writes graph part target) :
      Writes graph (.node h) target

/-- No integer that is written goes beyond the bound. -/
def Brief (graph : Graph) (bound : DigitBound) (value : Value) : Prop :=
  ∀ a, graph.Writes value (.atom a) → a.exceeded? bound = none

/-- A value of a type that is not written: neither an atom, nor a list, a tuple or a dictionary. -/
def Unwritten (graph : Graph) : Value → Prop
  | .atom _ => False
  | .node h => (graph.get h).type = .set
  | _ => True

/-- A fault is met on a path: a container on the first level that is too deep, a value of a type
that is not written, or an integer that is written and goes beyond the bound. -/
def Meets (graph : Graph) (bound : DigitBound) (depth : Nat) (value : Value) : DumpFault → Prop
  | .tooDeep => ∃ path h, graph.at? value path = some (.node h) ∧ path.length = depth
  | .unsupported type =>
      ∃ path part, graph.at? value path = some part ∧ graph.Unwritten part ∧
        graph.typeOf part = type
  | .tooLong most => ∃ a, graph.Writes value (.atom a) ∧ a.exceeded? bound = some most

theorem written_cases (graph : Graph) (value : Value) :
    (∃ a, value = .atom a) ∨ (∃ h, value = .node h ∧ (graph.get h).type ≠ .set) ∨
      graph.Unwritten value := by
  cases value with
  | atom a => exact .inl ⟨a, rfl⟩
  | node h =>
      by_cases set : (graph.get h).type = .set
      · exact .inr (.inr set)
      · exact .inr (.inl ⟨h, rfl, set⟩)
  | _ => exact .inr (.inr trivial)

theorem Fits.below {level : Nat} (fits : graph.Fits depth level value) :
    graph.Fits (depth + 1) (level + 1) value := by
  cases value with
  | atom a => trivial
  | node h => exact ⟨fits.1, Nat.succ_lt_succ fits.2⟩
  | _ => exact fits

theorem Unwritten.not_fits {level : Nat} (unwritten : graph.Unwritten value) :
    ¬graph.Fits depth level value := by
  cases value with
  | atom a => exact unwritten.elim
  | node h => exact fun fits => fits.1 unwritten
  | _ => exact id

/-- The fault of a result. -/
def faultOf? {α : Type} : Except DumpFault α → Option DumpFault
  | .ok _ => none
  | .error fault => some fault

/-- The fault that is met where a value is spelled out, if there is one. -/
def fault? (graph : Graph) (bound : DigitBound) (depth : Nat) (value : Value) : Option DumpFault :=
  faultOf? (graph.spell bound depth value)

theorem faultOf?_map {α β : Type} (f : α → β) (result : Except DumpFault α) :
    faultOf? (result.map f) = faultOf? result := by
  cases result <;> rfl

theorem faultOf?_mapM {α β : Type} (f : α → Except DumpFault β) (items : List α) :
    faultOf? (items.mapM f) = items.findSome? fun item => faultOf? (f item) := by
  induction items with
  | nil => rfl
  | cons item rest ih =>
      rw [List.mapM_cons, List.findSome?_cons, ← ih]
      cases f item with
      | error fault => rfl
      | ok b => cases rest.mapM f <;> rfl

theorem faultOf?_spellEntries (spell : Value → Except DumpFault Literal) (next : Int)
    (entries : List (Value × Value)) : faultOf? (spellEntries spell next entries) =
      (Entries.written next entries).findSome? fun part => faultOf? (spell part) := by
  induction entries generalizing next with
  | nil => rfl
  | cons entry rest ih =>
      rw [Entries.written, List.findSome?_cons, List.findSome?_append, ← ih, spellEntries, spellKey]
      cases spell entry.2 with
      | error fault => rfl
      | ok item =>
          by_cases omitted : entry.1.intKey? = some next
          · rw [if_pos omitted, if_pos omitted]
            cases spellEntries spell (entry.1.nextKey next) rest <;> rfl
          · rw [if_neg omitted, if_neg omitted, List.findSome?_singleton]
            cases spell entry.1 with
            | error fault => rfl
            | ok key => cases spellEntries spell (entry.1.nextKey next) rest <;> rfl

theorem fault?_atom {a : Atom} :
    graph.fault? bound depth (.atom a) = (a.exceeded? bound).map .tooLong := by
  rw [fault?, spell, spellAtom]
  cases a.exceeded? bound <;> rfl

theorem fault?_of_unwritten (unwritten : graph.Unwritten value) :
    graph.fault? bound depth value = some (.unsupported (graph.typeOf value)) := by
  cases value with
  | atom a => exact unwritten.elim
  | node h =>
      rw [fault?, spell_set unwritten, typeOf, show (graph.get h).type = .set from unwritten]
      rfl
  | _ =>
      rw [fault?, spell.eq_def]
      rfl

theorem not_unwritten_of_unfold {literal : Literal}
    (spelled : graph.unfold depth value = .ok literal) : ¬graph.Unwritten value := by
  intro unwritten
  have faulty : graph.fault? none depth value = _ := fault?_of_unwritten unwritten
  rw [fault?, spell_none_of_unfold spelled] at faulty
  cases faulty

theorem fault?_zero {h : Handle .node} (type : (graph.get h).type ≠ .set) :
    graph.fault? bound 0 (.node h) = some .tooDeep := by
  rw [fault?, spell_zero type]
  rfl

/-- A container has the first fault of the parts that are written. -/
theorem fault?_succ {h : Handle .node} (type : (graph.get h).type ≠ .set) :
    graph.fault? bound (depth + 1) (.node h) =
      (graph.get h).written.findSome? (graph.fault? bound depth) := by
  rw [fault?]
  cases content : graph.get h with
  | set items => exact absurd (by rw [content]; rfl) type
  | list items => rw [spell_list content, faultOf?_map, faultOf?_mapM]; rfl
  | tuple items => rw [spell_tuple content, faultOf?_map, faultOf?_mapM]; rfl
  | dict entries => rw [spell_dict content, faultOf?_map, faultOf?_spellEntries]; rfl

/-- Where no fault is met, every path leads to what fits its level. -/
theorem fits_of_fault?_eq_none {part : Value} (faultless : graph.fault? bound depth value = none)
    (leads : graph.at? value path = some part) : graph.Fits depth path.length part := by
  induction path generalizing depth value with
  | nil =>
      cases leads
      obtain ⟨a, rfl⟩ | ⟨h, rfl, type⟩ | unwritten := graph.written_cases part
      · trivial
      · cases depth with
        | zero => cases (fault?_zero type).symm.trans faultless
        | succ depth => exact ⟨type, Nat.zero_lt_succ _⟩
      · cases (fault?_of_unwritten unwritten).symm.trans faultless
  | cons position path ih =>
      obtain ⟨inner, stands, onward⟩ := Option.bind_eq_some_iff.1 leads
      have member : inner ∈ graph.parts value := List.mem_of_getElem? stands
      obtain ⟨a, rfl⟩ | ⟨h, rfl, type⟩ | unwritten := graph.written_cases value
      · cases member
      · cases depth with
        | zero => cases (fault?_zero type).symm.trans faultless
        | succ depth =>
            rw [fault?_succ type, List.findSome?_eq_none_iff] at faultless
            cases key : inner.intKey? with
            | none => exact (ih (faultless inner (Node.mem_written member key)) onward).below
            | some n =>
                -- A key that is not written is an integer, and no path leads on from it.
                obtain rfl := Value.eq_of_intKey? key
                cases path with
                | nil =>
                    cases onward
                    trivial
                | cons => cases onward
      · cases (fault?_of_unwritten unwritten).symm.trans faultless

/-- Where no fault is met, no integer that is written goes beyond the bound. -/
theorem brief_of_fault?_eq_none (faultless : graph.fault? bound depth value = none) :
    graph.Brief bound value := by
  intro a writes
  generalize target : Value.atom a = part at writes
  induction writes generalizing depth with
  | here =>
      subst target
      rw [fault?_atom] at faultless
      exact Option.map_eq_none_iff.1 faultless
  | part type member _ ih =>
      cases depth with
      | zero => cases (fault?_zero type).symm.trans faultless
      | succ depth =>
          rw [fault?_succ type, List.findSome?_eq_none_iff] at faultless
          exact ih (faultless _ member) target

/-- A fault that is met stands at the end of some path. -/
theorem meets_of_fault?_eq_some {fault : DumpFault}
    (faulty : graph.fault? bound depth value = some fault) :
    graph.Meets bound depth value fault := by
  have atomic {a : Atom} {depth : Nat} (faulty : graph.fault? bound depth (.atom a) = some fault) :
      graph.Meets bound depth (.atom a) fault := by
    rw [fault?_atom] at faulty
    obtain ⟨most, exceeded, rfl⟩ := Option.map_eq_some_iff.1 faulty
    exact ⟨a, .here _, exceeded⟩
  induction depth generalizing value with
  | zero =>
      obtain ⟨a, rfl⟩ | ⟨h, rfl, type⟩ | unwritten := graph.written_cases value
      · exact atomic faulty
      · cases (fault?_zero type).symm.trans faulty
        exact ⟨[], h, rfl, rfl⟩
      · cases (fault?_of_unwritten unwritten).symm.trans faulty
        exact ⟨[], value, rfl, unwritten, rfl⟩
  | succ depth ih =>
      obtain ⟨a, rfl⟩ | ⟨h, rfl, type⟩ | unwritten := graph.written_cases value
      · exact atomic faulty
      · rw [fault?_succ type] at faulty
        obtain ⟨inner, member, faulty⟩ := List.exists_of_findSome?_eq_some faulty
        obtain ⟨position, stands⟩ :=
          List.mem_iff_getElem?.1 (Node.mem_parts_of_mem_written member)
        have down (path : List Nat) :
            graph.at? (.node h) (position :: path) = graph.at? inner path := by
          rw [at?, parts, stands, Option.bind_some]
        cases fault with
        | tooDeep =>
            obtain ⟨path, k, leads, length⟩ := ih faulty
            exact ⟨position :: path, k, (down path).trans leads, congrArg (· + 1) length⟩
        | unsupported type =>
            obtain ⟨path, part, leads, unwritten⟩ := ih faulty
            exact ⟨position :: path, part, (down path).trans leads, unwritten⟩
        | tooLong most =>
            obtain ⟨a, writes, exceeded⟩ := ih faulty
            exact ⟨a, .part type member writes, exceeded⟩
      · cases (fault?_of_unwritten unwritten).symm.trans faulty
        exact ⟨[], value, rfl, unwritten, rfl⟩

end Graph

end PhpDecl
