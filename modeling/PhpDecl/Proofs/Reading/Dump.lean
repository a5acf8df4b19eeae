import PhpDecl.Proofs.Reading.Run
import PhpDecl.Text.Normal
import PhpDecl.Proofs.Unfolding

/-!
# Reading undoes writing

What the reader makes of the text of a value is what the value denotes, under every layout whose
indentation is made of spaces and tabs. The proof follows the writer: an entry takes an open
array from one complete entry to the next, entries are written on one line or on a line each,
and a value is written at every level in the same way.
-/

namespace PhpDecl

namespace Graph

/-! ## What has been spelled out -/

variable {graph : Graph} {depth : Nat} {h : Handle .node} {literal : Literal}

theorem eq_of_unfold_atom {a : Atom} (spelled : graph.unfold depth (.atom a) = .ok literal) :
    literal = .atom a := by
  rw [unfold.eq_def] at spelled
  cases spelled
  rfl

theorem exists_of_unfold_list {items : List Value} (content : graph.get h = .list items)
    (spelled : graph.unfold depth (.node h) = .ok literal) :
    ∃ inner literals, depth = inner + 1 ∧ items.mapM (graph.unfold inner) = .ok literals ∧
      literal = .list literals := by
  rw [unfold.eq_def] at spelled
  cases depth with
  | zero => simp [content] at spelled
  | succ inner =>
      simp only [content] at spelled
      obtain ⟨literals, all, spelled⟩ := exists_of_bind spelled
      cases spelled
      exact ⟨inner, literals, rfl, all, rfl⟩

theorem exists_of_unfold_tuple {items : List Value} (content : graph.get h = .tuple items)
    (spelled : graph.unfold depth (.node h) = .ok literal) :
    ∃ inner literals, depth = inner + 1 ∧ items.mapM (graph.unfold inner) = .ok literals ∧
      literal = .tuple literals := by
  rw [unfold.eq_def] at spelled
  cases depth with
  | zero => simp [content] at spelled
  | succ inner =>
      simp only [content] at spelled
      obtain ⟨literals, all, spelled⟩ := exists_of_bind spelled
      cases spelled
      exact ⟨inner, literals, rfl, all, rfl⟩

theorem exists_of_unfold_dict {entries : List (Value × Value)}
    (content : graph.get h = .dict entries)
    (spelled : graph.unfold depth (.node h) = .ok literal) :
    ∃ inner literals, depth = inner + 1 ∧
      entries.mapM (unfoldEntry (graph.unfold inner)) = .ok literals ∧
        literal = .dict literals := by
  rw [unfold.eq_def] at spelled
  cases depth with
  | zero => simp [content] at spelled
  | succ inner =>
      simp only [content] at spelled
      obtain ⟨literals, all, spelled⟩ := exists_of_bind spelled
      cases spelled
      exact ⟨inner, literals, rfl, all, rfl⟩

/-- Where all has been spelled out, each has been. -/
theorem exists_of_mapM {α β ε : Type} {f : α → Except ε β} {items : List α} {results : List β}
    (all : items.mapM f = .ok results) {a : α} (member : a ∈ items) : ∃ b, f a = .ok b := by
  induction items generalizing results with
  | nil => cases member
  | cons first rest ih =>
      obtain ⟨b, others, head, tail, _⟩ := exists_of_mapM_cons all
      cases member with
      | head => exact ⟨b, head⟩
      | tail _ later => exact ih tail later

/-- What is written is the text of what has been spelled out. -/
theorem exists_of_dump {layout : Layout} {value : Value} {text : List Char}
    (dumped : graph.dump layout value = .ok text) :
    ∃ literal, graph.unfold Literal.maxNesting value = .ok literal ∧
      text = literal.textAt layout 0 := by
  obtain ⟨literal, spelled, written⟩ := exists_of_bind dumped
  cases written
  exact ⟨literal, unfold_of_spell spelled, rfl⟩

end Graph

namespace Reading

open Text

/-! ## Entries -/

/-- The text, which a comma or a bracket follows, adds entries to an array. -/
def SpellsEntry (text : List Char) (before after : Frame) : Prop :=
  ∃ filled : Frame, filled.complete = some after ∧
    ∀ outer, Leads text (.reading (before :: outer)) (.reading (filled :: outer))

/-- A bracket ends the entry before it. -/
theorem Frame.close_of_complete {frame after : Frame} (h : frame.complete = some after) :
    frame.close = some (.array after.entries) := by
  cases slot : frame.slot with
  | vacant => simp [Frame.complete, slot] at h
  | value item => simp [Frame.close, slot, h]
  | keyed key => simp [Frame.complete, slot] at h
  | entry key item => simp [Frame.close, slot, h]

/-- A value alone is an entry under the key that the reader supplies. -/
theorem Spells.item {text : List Char} {item : Reading} (h : Spells text item) {frame : Frame}
    (vacant : frame.slot = .vacant) :
    SpellsEntry text frame (frame.add (.int frame.next) item) := by
  refine ⟨{ frame with slot := .value item }, rfl, fun outer => h _ _ ?_⟩
  simp [Machine.put, Machine.change, Frame.put, vacant]

/-- A key, an arrow and a value are an entry. -/
theorem Spells.entry {keyText itemText : List Char} {key item : Reading}
    (keySpelled : Spells keyText key) (itemSpelled : Spells itemText item) {frame : Frame}
    (vacant : frame.slot = .vacant) :
    SpellsEntry (keyText ++ " => ".toList ++ itemText) frame (frame.add key item) := by
  refine ⟨{ frame with slot := .entry key item }, rfl, fun outer => ?_⟩
  have first : Leads keyText (.reading (frame :: outer))
      (.reading ({ frame with slot := .value key } :: outer)) := by
    refine keySpelled _ _ ?_
    simp [Machine.put, Machine.change, Frame.put, vacant]
  have last : Leads itemText (.reading ({ frame with slot := .keyed key } :: outer))
      (.reading ({ frame with slot := .entry key item } :: outer)) :=
    itemSpelled _ _ rfl
  rw [List.append_assoc]
  refine first.append ?_ rfl
  exact Leads.layout [' '] rfl
    (Leads.arrow rfl (Leads.layout [' '] rfl last))

/-- The texts add entries to an array, one after the other. -/
inductive SpellsEntries : List (List Char) → Frame → Frame → Prop
  | nil (frame : Frame) : SpellsEntries [] frame frame
  | cons {part : List Char} {rest : List (List Char)} {before between after : Frame} :
      SpellsEntry part before between → SpellsEntries rest between after →
        SpellsEntries (part :: rest) before after

/-- A vacant frame stays vacant from entry to entry. -/
theorem SpellsEntries.vacant {parts : List (List Char)} {before after : Frame}
    (h : SpellsEntries parts before after) (vacant : before.slot = .vacant) :
    after.slot = .vacant := by
  induction h with
  | nil frame => exact vacant
  | cons entry _ ih =>
      obtain ⟨filled, complete, _⟩ := entry
      refine ih ?_
      unfold Frame.complete at complete
      split at complete
      · cases complete
        rfl
      · cases complete
        rfl
      · cases complete

/-! ## Arrays -/

variable {parts : List (List Char)} {before after : Frame} {outer : List Frame} {next : Machine}

/-- Entries on one line, up to the bracket that ends them. -/
theorem SpellsEntries.line (h : SpellsEntries parts before after) (nonempty : parts ≠ [])
    (put : (Machine.reading outer).put (.array after.entries) = some next) :
    Leads (joined [',', ' '] parts ++ [']']) (.reading (before :: outer)) next := by
  induction h with
  | nil frame => exact absurd rfl nonempty
  | @cons part rest before between after entry others ih =>
      obtain ⟨filled, complete, leads⟩ := entry
      cases others with
      | nil frame =>
          exact (leads outer).append
            (Leads.closing (Frame.close_of_complete complete) put (Leads.nil next)) rfl
      | cons first last =>
          rw [joined_cons_of_ne_nil _ _ (List.cons_ne_nil _ _), List.append_assoc,
            List.append_assoc]
          refine (leads outer).append ?_ rfl
          exact Leads.comma complete
            (Leads.layout [' '] rfl (ih (List.cons_ne_nil _ _) put))

/-- Entries on a line each, with a comma behind the last one too. -/
theorem SpellsEntries.lines (h : SpellsEntries parts before after)
    (vacant : before.slot = .vacant) {unit margin : List Char}
    (blankUnit : unit.all isLayout = true) (blankMargin : margin.all isLayout = true)
    (put : (Machine.reading outer).put (.array after.entries) = some next) :
    Leads (parts.flatMap (fun part => unit ++ part ++ [',', '\n'] ++ margin) ++ [']'])
      (.reading (before :: outer)) next := by
  induction h with
  | nil frame =>
      refine Leads.closing ?_ put (Leads.nil next)
      rw [Frame.close, vacant]
  | @cons part rest before between after entry others ih =>
      have vacantNext : between.slot = .vacant :=
        SpellsEntries.vacant (.cons entry (.nil between)) vacant
      obtain ⟨filled, complete, leads⟩ := entry
      have blankBreak : ('\n' :: margin).all isLayout = true := blankMargin
      rw [List.flatMap_cons, List.append_assoc, List.append_assoc, List.append_assoc,
        List.append_assoc]
      refine Leads.layout unit blankUnit ((leads outer).append ?_ rfl)
      exact Leads.comma complete
        (Leads.layout ('\n' :: margin) blankBreak (ih vacantNext put))

/-- An array of written entries is read as these entries. -/
theorem spells_arrayText {layout : Layout} (blank : layout.unit.all isPad = true) (level : Nat)
    (h : SpellsEntries parts .opened after) :
    Spells (Literal.arrayText layout level parts) (.array after.entries) := by
  have blankUnit : layout.unit.all isLayout = true := by
    refine List.all_eq_true.2 fun c member => ?_
    have pad := List.all_eq_true.1 blank c member
    simp only [isPad] at pad
    rw [isLayout, pad, Bool.true_or, Bool.true_or]
  have blankMargin : ('\n' :: layout.margin level).all isLayout = true := by
    rw [Layout.margin_eq_flatten, List.all_cons, List.all_flatten]
    refine Bool.and_eq_true _ _ ▸ ⟨rfl, List.all_eq_true.2 fun unit member => ?_⟩
    rw [List.eq_of_mem_replicate member]
    exact blankUnit
  intro frames next put
  unfold Literal.arrayText
  simp only
  split
  next empty =>
    cases List.isEmpty_iff.1 empty
    cases h
    exact Leads.opening (Leads.closing rfl put (Leads.nil next))
  next nonempty =>
    split
    next =>
      rw [List.append_assoc, List.append_assoc]
      refine Leads.opening (Leads.layout ('\n' :: layout.margin level) blankMargin ?_)
      have blankTail : (layout.margin level).all isLayout = true := by
        rw [List.all_cons, Bool.and_eq_true] at blankMargin
        exact blankMargin.2
      exact h.lines rfl blankUnit blankTail put
    next =>
      refine Leads.opening (h.line ?_ put)
      intro empty
      exact nonempty (List.isEmpty_iff.2 empty)

/-! ## Values -/

section Values

variable {graph : Graph} {layout : Layout} {depth level : Nat}

/-- The writer and the reader agree on which keys are integers. -/
theorem intKey?_eq_some_iff {key : Value} {reading : Reading} {literal : Literal}
    (denotes : graph.Denotes key reading) (spelled : graph.unfold depth key = .ok literal)
    (n : Int) : literal.intKey? = some n ↔ reading = .int n := by
  cases denotes with
  | list content each =>
      obtain ⟨_, _, _, _, rfl⟩ := Graph.exists_of_unfold_list content spelled
      simp [Literal.intKey?]
  | tuple content each =>
      obtain ⟨_, _, _, _, rfl⟩ := Graph.exists_of_unfold_tuple content spelled
      simp [Literal.intKey?]
  | dict content eachKey eachItem =>
      obtain ⟨_, _, _, _, rfl⟩ := Graph.exists_of_unfold_dict content spelled
      simp [Literal.intKey?]
  | _ =>
      rw [Graph.eq_of_unfold_atom spelled]
      simp [Literal.intKey?]

/-- The reader moves on from a key as the writer does. -/
theorem keyAfter_eq_nextKey {key : Value} {reading : Reading} {literal : Literal}
    (denotes : graph.Denotes key reading) (spelled : graph.unfold depth key = .ok literal)
    (next : Int) : Frame.keyAfter next reading = literal.nextKey next := by
  have agree := intKey?_eq_some_iff denotes spelled
  rw [Literal.nextKey]
  cases integer : literal.intKey? with
  | some n =>
      rw [(agree n).1 integer]
      exact Int.max_comm next (n + 1)
  | none =>
      cases reading with
      | int n =>
          rw [(agree n).2 rfl] at integer
          cases integer
      | _ => rfl

/-- The items of a sequence get the keys that count on from the next one. -/
theorem spellsEntries_itemTexts {items : List Value} {readings : List Reading}
    {literals : List Literal}
    (each : ∀ {value reading literal}, graph.Denotes value reading →
      graph.unfold depth value = .ok literal → Spells (literal.textAt layout level) reading)
    (denotes : List.Forall₂ graph.Denotes items readings)
    (spelled : items.mapM (graph.unfold depth) = .ok literals) (frame : Frame)
    (vacant : frame.slot = .vacant) :
    ∃ after, SpellsEntries (Literal.itemTexts layout level literals) frame after ∧
      after.entries = frame.entries ++ numbered frame.next readings := by
  induction denotes generalizing literals frame with
  | nil =>
      cases spelled
      exact ⟨frame, .nil frame, (List.append_nil _).symm⟩
  | @cons item reading items readings first others ih =>
      obtain ⟨literal, rest, spelledItem, spelledRest, rfl⟩ := Graph.exists_of_mapM_cons spelled
      obtain ⟨after, entries, same⟩ :=
        ih spelledRest (frame.add (.int frame.next) reading) rfl
      refine ⟨after, .cons ((each first spelledItem).item vacant) entries, same.trans ?_⟩
      have counted : Frame.keyAfter frame.next (.int frame.next) = frame.next + 1 :=
        Int.max_eq_right (Int.le_of_lt (Int.lt_succ frame.next))
      simp [Frame.add, numbered, counted]

/-- The entries of a keyed array keep their keys, those that are left out too. -/
theorem spellsEntries_entryTexts {entries : List (Value × Value)} {keys items : List Reading}
    {literals : List (Literal × Literal)}
    (each : ∀ {value reading literal}, graph.Denotes value reading →
      graph.unfold depth value = .ok literal → Spells (literal.textAt layout level) reading)
    (denotesKeys : List.Forall₂ graph.Denotes (entries.map Prod.fst) keys)
    (denotesItems : List.Forall₂ graph.Denotes (entries.map Prod.snd) items)
    (spelled : entries.mapM (Graph.unfoldEntry (graph.unfold depth)) = .ok literals)
    (frame : Frame) (vacant : frame.slot = .vacant) :
    ∃ after, SpellsEntries (Literal.entryTexts layout level frame.next literals) frame after ∧
      after.entries = frame.entries ++ keys.zip items := by
  induction entries generalizing keys items literals frame with
  | nil =>
      cases spelled
      cases denotesKeys
      exact ⟨frame, .nil frame, (List.append_nil _).symm⟩
  | cons entry entries ih =>
      obtain ⟨⟨keyLiteral, itemLiteral⟩, rest, spelledEntry, spelledRest, rfl⟩ :=
        Graph.exists_of_mapM_cons spelled
      obtain ⟨spelledKey, spelledItem⟩ := Graph.spelled_of_unfoldEntry spelledEntry
      cases denotesKeys with
      | @cons _ key _ keys denotesKey denotesKeys =>
      cases denotesItems with
      | @cons _ item _ items denotesItem denotesItems =>
      obtain ⟨after, others, same⟩ :=
        ih denotesKeys denotesItems spelledRest (frame.add key item) rfl
      have moved : (frame.add key item).next = keyLiteral.nextKey frame.next :=
        keyAfter_eq_nextKey denotesKey spelledKey frame.next
      rw [moved] at others
      refine ⟨after, .cons ?_ others, same.trans ?_⟩
      · split
        -- A key is left out only where it is the one that the reader counts to.
        next omitted =>
          rw [(intKey?_eq_some_iff denotesKey spelledKey _).1 (eq_of_beq omitted)]
          exact (each denotesItem spelledItem).item vacant
        next => exact (each denotesKey spelledKey).entry (each denotesItem spelledItem) vacant
      · simp [Frame.add]

/-- At every level the text of a value is read as what the value denotes. -/
theorem spells_textAt (blank : layout.unit.all isPad = true) {value : Value} {reading : Reading}
    {literal : Literal} (denotes : graph.Denotes value reading)
    (spelled : graph.unfold depth value = .ok literal) :
    Spells (literal.textAt layout level) reading := by
  -- Containers get shallower towards the atoms, so the induction is on the depth.
  induction depth using Nat.strongRecOn generalizing value reading literal level with
  | ind depth ih =>
      cases denotes with
      | null =>
          rw [Graph.eq_of_unfold_atom spelled]
          exact spells_word rfl
      | bool b =>
          rw [Graph.eq_of_unfold_atom spelled]
          cases b
          · exact spells_word rfl
          · exact spells_word rfl
      | int n =>
          rw [Graph.eq_of_unfold_atom spelled]
          exact spells_word (ofWord?_intText n)
      | float x =>
          rw [Graph.eq_of_unfold_atom spelled]
          exact spells_word (ofWord?_doubleLiteral x)
      | word w =>
          rw [Graph.eq_of_unfold_atom spelled]
          exact spells_encode w.chars
      | list content each =>
          obtain ⟨depth, literals, rfl, items, rfl⟩ :=
            Graph.exists_of_unfold_list content spelled
          obtain ⟨after, entries, same⟩ := spellsEntries_itemTexts
            (fun denotes spelled => ih depth (Nat.lt_succ_self depth) denotes spelled)
            each items .opened rfl
          rw [Frame.opened, List.nil_append] at same
          exact same ▸ spells_arrayText blank level entries
      | tuple content each =>
          obtain ⟨depth, literals, rfl, items, rfl⟩ :=
            Graph.exists_of_unfold_tuple content spelled
          obtain ⟨after, entries, same⟩ := spellsEntries_itemTexts
            (fun denotes spelled => ih depth (Nat.lt_succ_self depth) denotes spelled)
            each items .opened rfl
          rw [Frame.opened, List.nil_append] at same
          exact same ▸ spells_arrayText blank level entries
      | dict content eachKey eachItem =>
          obtain ⟨depth, literals, rfl, items, rfl⟩ :=
            Graph.exists_of_unfold_dict content spelled
          obtain ⟨after, entries, same⟩ := spellsEntries_entryTexts
            (fun denotes spelled => ih depth (Nat.lt_succ_self depth) denotes spelled)
            eachKey eachItem items .opened rfl
          rw [Frame.opened, List.nil_append] at same
          exact same ▸ spells_arrayText blank level entries

end Values

/-- A value that is written denotes what is read. -/
theorem ofText?_of_denotes {graph : Graph} {layout : Layout} {value : Value} {reading : Reading}
    {text : List Char} (blank : layout.unit.all isPad = true)
    (denotes : graph.Denotes value reading) (dumped : graph.dump layout value = .ok text) :
    ofText? text = some reading := by
  obtain ⟨literal, spelled, rfl⟩ := Graph.exists_of_dump dumped
  exact (spells_textAt blank denotes spelled).ofText?

end Reading

namespace Graph

/-! ## What is written denotes something -/

variable {graph : Graph}

theorem exists_forall₂_denotes (items : List Value)
    (each : ∀ item ∈ items, ∃ reading, graph.Denotes item reading) :
    ∃ readings, List.Forall₂ graph.Denotes items readings := by
  induction items with
  | nil => exact ⟨[], .nil⟩
  | cons item rest ih =>
      obtain ⟨reading, first⟩ := each item List.mem_cons_self
      obtain ⟨readings, others⟩ := ih fun item member => each item (List.mem_cons_of_mem _ member)
      exact ⟨reading :: readings, .cons first others⟩

/-- What can be spelled out and holds no code denotes something. -/
theorem exists_denotes {depth : Nat} {value : Value} {literal : Literal}
    (plain : ∀ code, ¬graph.Holds value (.code code))
    (spelled : graph.unfold depth value = .ok literal) :
    ∃ reading, graph.Denotes value reading := by
  -- Only containers go deeper, and what they hold passes to their parts.
  induction depth using Nat.strongRecOn generalizing value literal with
  | ind depth ih =>
      cases value with
      | atom a =>
          cases a with
          | null => exact ⟨_, .null⟩
          | bool b => exact ⟨_, .bool b⟩
          | int n => exact ⟨_, .int n⟩
          | float x => exact ⟨_, .float x⟩
          | word w => exact ⟨_, .word w⟩
          | code text => exact absurd (Holds.atom _) (plain text)
      | node h =>
          have plainPart {part : Value} (member : part ∈ (graph.get h).parts) (code : String) :
              ¬graph.Holds part (.code code) :=
            fun held => plain code (.part member held)
          cases content : graph.get h with
          | list items =>
              obtain ⟨inner, literals, rfl, all, -⟩ := exists_of_unfold_list content spelled
              rw [content] at plainPart
              obtain ⟨readings, each⟩ := exists_forall₂_denotes items fun item member => by
                obtain ⟨literal, same⟩ := exists_of_mapM all member
                exact ih inner (Nat.lt_succ_self inner) (plainPart member) same
              exact ⟨_, .list content each⟩
          | tuple items =>
              obtain ⟨inner, literals, rfl, all, -⟩ := exists_of_unfold_tuple content spelled
              rw [content] at plainPart
              obtain ⟨readings, each⟩ := exists_forall₂_denotes items fun item member => by
                obtain ⟨literal, same⟩ := exists_of_mapM all member
                exact ih inner (Nat.lt_succ_self inner) (plainPart member) same
              exact ⟨_, .tuple content each⟩
          | dict entries =>
              obtain ⟨inner, literals, rfl, all, -⟩ := exists_of_unfold_dict content spelled
              rw [content] at plainPart
              -- An entry is spelled out item first, and both of its sides denote something.
              have parts {entry : Value × Value} (member : entry ∈ entries) :
                  (∃ reading, graph.Denotes entry.1 reading) ∧
                    ∃ reading, graph.Denotes entry.2 reading := by
                obtain ⟨result, same⟩ := exists_of_mapM all member
                obtain ⟨key, item⟩ := spelled_of_unfoldEntry same
                have key_mem : entry.1 ∈ Entries.parts entries :=
                  List.mem_flatMap.2 ⟨entry, member, by simp⟩
                have item_mem : entry.2 ∈ Entries.parts entries :=
                  List.mem_flatMap.2 ⟨entry, member, by simp⟩
                exact ⟨ih inner (Nat.lt_succ_self inner) (plainPart key_mem) key,
                  ih inner (Nat.lt_succ_self inner) (plainPart item_mem) item⟩
              obtain ⟨keys, eachKey⟩ := exists_forall₂_denotes (entries.map Prod.fst)
                fun key member => by
                  obtain ⟨entry, inside, rfl⟩ := List.mem_map.1 member
                  exact (parts inside).1
              obtain ⟨items, eachItem⟩ := exists_forall₂_denotes (entries.map Prod.snd)
                fun item member => by
                  obtain ⟨entry, inside, rfl⟩ := List.mem_map.1 member
                  exact (parts inside).2
              exact ⟨_, .dict content eachKey eachItem⟩
          | set items =>
              rw [unfold.eq_def] at spelled
              simp [content] at spelled
      | _ =>
          rw [unfold.eq_def] at spelled
          cases spelled

/-- Reading undoes writing. A value without code that is written, under whatever wrap length and
with whatever indentation of spaces and tabs, denotes one thing, and that is what a reader makes
of the whole text. -/
theorem ofText?_dump {layout : Layout} {value : Value} {text : List Char}
    (blank : layout.unit.all Text.isPad = true) (plain : ∀ code, ¬graph.Holds value (.code code))
    (dumped : graph.dump layout value = .ok text) :
    ∃ reading, (∀ other, graph.Denotes value other ↔ other = reading) ∧
      Reading.ofText? text = some reading := by
  obtain ⟨literal, spelled, _⟩ := exists_of_dump dumped
  obtain ⟨reading, denotes⟩ := exists_denotes plain spelled
  have read := Reading.ofText?_of_denotes blank denotes dumped
  refine ⟨reading, fun other => ⟨fun also => ?_, fun same => same ▸ denotes⟩, read⟩
  -- Another thing that the value denotes would be read from the same text.
  have readAlso := Reading.ofText?_of_denotes blank also dumped
  exact Option.some.inj (readAlso.symm.trans read)

/-- A list under the key that the reader supplies, and a text under another. -/
def nested : Graph :=
  ⟨#[.list [.text "it's", .null], .dict [(.atom (.int 0), .node ⟨0⟩), (.bool true, .text "\n")]]⟩

theorem ofText?_dump_nested :
    ∃ reading, (∀ other, nested.Denotes (.node ⟨1⟩) other ↔ other = reading) ∧
      Reading.ofText? "[['it\\'s', null], true => \"\\n\"]".toList = some reading := by
  have blank : Layout.standard.unit.all Text.isPad = true := by decide
  refine ofText?_dump blank ?_ rfl
  have inList {a : Atom} (held : nested.Holds (.node ⟨0⟩) a) : ∀ code, a ≠ .code code := by
    cases held with
    | part member held =>
      simp only [nested, Arena.get, List.getElem?_toArray, List.getElem?_cons_zero,
        Option.getD_some, Node.parts, List.mem_cons, List.not_mem_nil, or_false] at member
      intro code same
      rcases member with rfl | rfl
      · cases held
        cases same
      · cases held
        cases same
  intro code held
  cases held with
  | part member held =>
    simp only [nested, Arena.get, List.getElem?_toArray, List.getElem?_cons_succ,
      List.getElem?_cons_zero, Option.getD_some, Node.parts, Entries.parts, List.flatMap_cons,
      List.flatMap_nil, List.cons_append, List.nil_append, List.mem_cons, List.not_mem_nil,
      or_false] at member
    rcases member with rfl | rfl | rfl | rfl
    · cases held
    · exact inList held code rfl
    · cases held
    · cases held

end Graph

end PhpDecl
