import PhpDecl.Proofs.Copies
import PhpDecl.Proofs.Literals
import PhpDecl.Proofs.Reading.Number
import PhpDecl.Proofs.Unfolding

/-!
# Where arrays are wrapped

The printer decides array by array, from the texts of the entries as they are: an array is written
one entry a line when one of them holds a line break already, or when all of them are too long for
a line at their level. The same can be told from the value alone (`textAt_eq_textWhere`): what is
wrapped are the arrays whose entries, all of them written on one line, do not fit, and the arrays
around these.
-/

namespace PhpDecl.Literal

open Text

/-! ## Arrays and what stands in them -/

/-- The texts of the entries of a keyed array, from a way of writing keys and items. -/
def entryTextsBy (write : Literal → List Char) (next : Int) :
    List (Literal × Literal) → List (List Char)
  | [] => []
  | (key, item) :: rest =>
      (if key.intKey? == some next then write item
       else write key ++ " => ".toList ++ write item) ::
        entryTextsBy write (nextKey next key) rest

/-- The texts of the entries of an array, from a way of writing what stands in it. -/
def textsBy (write : Literal → List Char) : Literal → List (List Char)
  | .atom _ => []
  | .list items => items.map write
  | .tuple items => items.map write
  | .dict entries => entryTextsBy write 0 entries

theorem sizeOf_lt_of_mem_parts {child literal : Literal} (member : child ∈ literal.parts) :
    sizeOf child < sizeOf literal := by
  cases literal with
  | atom a => cases member
  | list items =>
      have smaller := List.sizeOf_lt_of_mem (show child ∈ items from member)
      rw [list.sizeOf_spec]
      omega
  | tuple items =>
      have smaller := List.sizeOf_lt_of_mem (show child ∈ items from member)
      rw [tuple.sizeOf_spec]
      omega
  | dict entries =>
      obtain ⟨⟨key, item⟩, listed, own⟩ := List.mem_flatMap.1 member
      have smaller := List.sizeOf_lt_of_mem listed
      rw [Prod.mk.sizeOf_spec] at smaller
      rw [dict.sizeOf_spec]
      simp only [List.mem_cons, List.not_mem_nil, or_false] at own
      rcases own with rfl | rfl
      · omega
      · omega

/-- What holds of every literal whose items and keys it holds of, holds of all literals. -/
theorem forall_of_parts {P : Literal → Prop}
    (step : ∀ literal, (∀ child ∈ literal.parts, P child) → P literal) (literal : Literal) :
    P literal :=
  step literal fun child _ => forall_of_parts step child
  termination_by sizeOf literal
  decreasing_by exact sizeOf_lt_of_mem_parts ‹_›

/-- The texts of the entries depend on the texts of items and keys only. -/
theorem textsBy_congr {write other : Literal → List Char} {literal : Literal}
    (same : ∀ child ∈ literal.parts, write child = other child) :
    literal.textsBy write = literal.textsBy other := by
  cases literal with
  | atom a => rfl
  | list items => exact List.map_congr_left same
  | tuple items => exact List.map_congr_left same
  | dict entries =>
      rw [textsBy, textsBy]
      generalize (0 : Int) = next
      induction entries generalizing next with
      | nil => rfl
      | cons entry rest ih =>
          rw [parts, List.flatMap_cons] at same
          have key := same entry.1 (.head _)
          have item := same entry.2 (.tail _ (.head _))
          rw [entryTextsBy, entryTextsBy, key, item,
            ih (fun child member => same child (List.mem_append_right _ member))]

theorem textsBy_eq_nil_iff {write : Literal → List Char} {literal : Literal} :
    literal.textsBy write = [] ↔ literal.parts = [] := by
  cases literal with
  | atom a => simp [textsBy, parts]
  | list items => simp [textsBy, parts]
  | tuple items => simp [textsBy, parts]
  | dict entries => cases entries <;> simp [textsBy, entryTextsBy, parts]

/-- The text of an entry is that of an item, or of a key in front of one. -/
theorem mem_textsBy {write : Literal → List Char} {literal : Literal} {text : List Char}
    (member : text ∈ literal.textsBy write) :
    (∃ item ∈ literal.parts, text = write item) ∨
      ∃ key ∈ literal.parts, ∃ item ∈ literal.parts,
        text = write key ++ " => ".toList ++ write item := by
  cases literal with
  | atom a => cases member
  | list items =>
      obtain ⟨item, listed, rfl⟩ := List.mem_map.1 member
      exact .inl ⟨item, listed, rfl⟩
  | tuple items =>
      obtain ⟨item, listed, rfl⟩ := List.mem_map.1 member
      exact .inl ⟨item, listed, rfl⟩
  | dict entries =>
      rw [textsBy] at member
      rw [parts]
      generalize (0 : Int) = next at member
      induction entries generalizing next with
      | nil => cases member
      | cons entry rest ih =>
          obtain ⟨key, item⟩ := entry
          rw [entryTextsBy, List.mem_cons] at member
          rw [List.flatMap_cons]
          rcases member with rfl | later
          · split
            · exact .inl ⟨item, by simp, rfl⟩
            · exact .inr ⟨key, by simp, item, by simp, rfl⟩
          · rcases ih _ later with ⟨item, listed, same⟩ | ⟨key, inFront, item, listed, same⟩
            · exact .inl ⟨item, List.mem_append_right _ listed, same⟩
            · exact .inr ⟨key, List.mem_append_right _ inFront, item,
                List.mem_append_right _ listed, same⟩

/-- A line feed in a text that is joined without one stands in one of the texts. -/
theorem feed_mem_joined {separator : List Char} (inline : '\n' ∉ separator)
    (texts : List (List Char)) : '\n' ∈ joined separator texts ↔ ∃ text ∈ texts, '\n' ∈ text := by
  induction texts with
  | nil => simp [joined]
  | cons text rest ih =>
      cases rest with
      | nil => simp [joined]
      | cons second others =>
          rw [joined_cons_of_ne_nil _ _ (List.cons_ne_nil _ _), List.mem_append, List.mem_append,
            ih, List.exists_mem_cons_iff]
          simp [inline]

/-- A key that is left out is the integer that the reader supplies. -/
theorem eq_of_supplied {key : Literal} {next : Int}
    (supplied : (key.intKey? == some next) = true) : key = .atom (.int next) := by
  rw [beq_iff_eq] at supplied
  unfold intKey? at supplied
  split at supplied
  · rw [Option.some.inj supplied]
  · cases supplied

/-- A line feed in the entries of an array stands in an item or in a key, for the keys that are
left out hold none. -/
theorem feed_mem_textsBy {write : Literal → List Char} {literal : Literal}
    (plain : ∀ n, '\n' ∉ write (.atom (.int n))) :
    (∃ text ∈ literal.textsBy write, '\n' ∈ text) ↔
      ∃ child ∈ literal.parts, '\n' ∈ write child := by
  cases literal with
  | atom a => simp [textsBy, parts]
  | list items => simp [textsBy, parts]
  | tuple items => simp [textsBy, parts]
  | dict entries =>
      rw [textsBy, parts]
      generalize (0 : Int) = next
      induction entries generalizing next with
      | nil => simp [entryTextsBy]
      | cons entry rest ih =>
          obtain ⟨key, item⟩ := entry
          have own : '\n' ∈ (if key.intKey? == some next then write item
              else write key ++ " => ".toList ++ write item) ↔
                '\n' ∈ write key ∨ '\n' ∈ write item := by
            split
            next supplied =>
              simp [eq_of_supplied supplied, plain]
            next => simp
          rw [entryTextsBy, List.exists_mem_cons_iff, own, ih, List.flatMap_cons,
            List.cons_append, List.cons_append, List.nil_append, List.exists_mem_cons_iff,
            List.exists_mem_cons_iff, or_assoc]

/-! ## Ways of writing arrays -/

/-- An array on one line, from the texts of its entries. -/
def onOneLine (texts : List (List Char)) : List Char := '[' :: joined [',', ' '] texts ++ [']']

/-- An array with every entry on a line of its own. -/
def onLines (layout : Layout) (level : Nat) (texts : List (List Char)) : List Char :=
  let margin := layout.margin level
  ['[', '\n'] ++ margin ++
    texts.flatMap (fun text => layout.unit ++ text ++ [',', '\n'] ++ margin) ++ [']']

theorem arrayText_eq (layout : Layout) (level : Nat) (texts : List (List Char)) :
    arrayText layout level texts =
      if !texts.isEmpty && wraps layout level (joined [',', ' '] texts)
      then onLines layout level texts else onOneLine texts := by
  rw [arrayText]
  cases texts with
  | nil => rfl
  | cons text rest => rfl

/-- Every entry has a line of its own where the entries on one line hold a line feed or are too
long for the level. Otherwise the array is on one line. -/
theorem arrayText_cases (layout : Layout) (level : Nat) (texts : List (List Char)) :
    (texts ≠ [] ∧ arrayText layout level texts = onLines layout level texts ∧
      ('\n' ∈ joined [',', ' '] texts ∨
        layout.wrapLength - level * columnsPerLevel ≤ (joined [',', ' '] texts).length)) ∨
    ('\n' ∉ joined [',', ' '] texts ∧ arrayText layout level texts = onOneLine texts) := by
  rw [arrayText_eq, wraps]
  cases texts with
  | nil => exact .inr ⟨by simp [joined], rfl⟩
  | cons text rest =>
      rw [List.isEmpty_cons, Bool.not_false, Bool.true_and]
      split
      next wrapped =>
        rw [Bool.or_eq_true, List.contains_iff_mem, decide_eq_true_eq] at wrapped
        exact .inl ⟨List.cons_ne_nil _ _, rfl, wrapped⟩
      next flat =>
        rw [Bool.or_eq_true, List.contains_iff_mem, not_or] at flat
        exact .inr ⟨flat.1, rfl⟩

mutual

/-- A literal with every array written in a way that is told by its level and by the array. -/
def textWith (write : Nat → Literal → List (List Char) → List Char) (level : Nat) :
    Literal → List Char
  | .atom a => atomText a
  | .list items => write level (.list items) (itemsWith write (level + 1) items)
  | .tuple items => write level (.tuple items) (itemsWith write (level + 1) items)
  | .dict entries => write level (.dict entries) (entriesWith write (level + 1) 0 entries)

def itemsWith (write : Nat → Literal → List (List Char) → List Char) (level : Nat) :
    List Literal → List (List Char)
  | [] => []
  | item :: rest => textWith write level item :: itemsWith write level rest

def entriesWith (write : Nat → Literal → List (List Char) → List Char) (level : Nat) (next : Int) :
    List (Literal × Literal) → List (List Char)
  | [] => []
  | (key, item) :: rest =>
      (if key.intKey? == some next then textWith write level item
       else textWith write level key ++ " => ".toList ++ textWith write level item) ::
        entriesWith write level (nextKey next key) rest

end

section

variable (write : Nat → Literal → List (List Char) → List Char) (level : Nat)

theorem itemsWith_eq (items : List Literal) :
    itemsWith write level items = items.map (textWith write level) := by
  induction items with
  | nil => rfl
  | cons item rest ih => rw [itemsWith, ih, List.map_cons]

theorem entriesWith_eq (next : Int) (entries : List (Literal × Literal)) :
    entriesWith write level next entries = entryTextsBy (textWith write level) next entries := by
  induction entries generalizing next with
  | nil => rfl
  | cons entry rest ih => rw [entriesWith, ih, entryTextsBy]

/-- An array is written from the texts of what stands in it, which is one level deeper. -/
theorem textWith_eq {array : Literal} (compound : ∀ a, array ≠ .atom a) :
    textWith write level array =
      write level array (array.textsBy (textWith write (level + 1))) := by
  cases array with
  | atom a => exact absurd rfl (compound a)
  | list items => rw [textWith, itemsWith_eq, textsBy]
  | tuple items => rw [textWith, itemsWith_eq, textsBy]
  | dict entries => rw [textWith, entriesWith_eq, textsBy]

end

mutual

/-- The printer writes every array by a look at the texts of its entries. -/
theorem textAt_eq_textWith (layout : Layout) (level : Nat) : ∀ literal : Literal,
    textAt layout level literal = textWith (fun level _ => arrayText layout level) level literal
  | .atom _ => rfl
  | .list items => by rw [textAt, textWith, itemTexts_eq_itemsWith]
  | .tuple items => by rw [textAt, textWith, itemTexts_eq_itemsWith]
  | .dict entries => by rw [textAt, textWith, entryTexts_eq_entriesWith]

theorem itemTexts_eq_itemsWith (layout : Layout) (level : Nat) : ∀ items : List Literal,
    itemTexts layout level items = itemsWith (fun level _ => arrayText layout level) level items
  | [] => rfl
  | item :: rest => by
      rw [itemTexts, itemsWith, textAt_eq_textWith, itemTexts_eq_itemsWith layout level rest]

theorem entryTexts_eq_entriesWith (layout : Layout) (level : Nat) (next : Int) :
    ∀ entries : List (Literal × Literal), entryTexts layout level next entries =
      entriesWith (fun level _ => arrayText layout level) level next entries
  | [] => rfl
  | (key, item) :: rest => by
      rw [entryTexts, entriesWith, textAt_eq_textWith, textAt_eq_textWith,
        entryTexts_eq_entriesWith layout level _ rest]

end

theorem textAt_eq (layout : Layout) (level : Nat) {array : Literal}
    (compound : ∀ a, array ≠ .atom a) : textAt layout level array =
      arrayText layout level (array.textsBy (textAt layout (level + 1))) := by
  rw [textAt_eq_textWith, textWith_eq _ _ compound]
  exact congrArg _ (textsBy_congr fun child _ => (textAt_eq_textWith ..).symm)

/-- The text where the arrays that are told are written one entry a line, and the others on one
line. -/
def textWhere (layout : Layout) (spread : Nat → Literal → Bool) (level : Nat) :
    Literal → List Char :=
  textWith (fun level array texts =>
    if spread level array then onLines layout level texts else onOneLine texts) level

/-- The text with every array on one line. -/
def inline (literal : Literal) : List Char := textWith (fun _ _ => onOneLine) 0 literal

/-- On one line it does not matter how deep a literal stands. -/
theorem textWith_onOneLine (level : Nat) (literal : Literal) :
    textWith (fun _ _ => onOneLine) level literal = literal.inline := by
  have each (literal : Literal) : ∀ level, textWith (fun _ _ => onOneLine) level literal =
      textWith (fun _ _ => onOneLine) 0 literal := by
    induction literal using forall_of_parts with
    | step literal ih =>
        intro level
        by_cases compound : ∀ a, literal ≠ .atom a
        · rw [textWith_eq _ _ compound, textWith_eq _ _ compound]
          refine congrArg onOneLine (textsBy_congr fun child member => ?_)
          exact (ih child member _).trans (ih child member _).symm
        · obtain ⟨a, rfl⟩ := not_forall_not.1 compound
          rfl
  exact each literal level

/-- The entries of an array on one line. -/
def content (literal : Literal) : List Char := joined [',', ' '] (literal.textsBy inline)

theorem inline_eq {array : Literal} (compound : ∀ a, array ≠ .atom a) :
    array.inline = onOneLine (array.textsBy inline) := by
  rw [inline, textWith_eq _ _ compound]
  exact congrArg onOneLine (textsBy_congr fun child _ => textWith_onOneLine 1 child)

/-! ## What does not fit -/

mutual

/-- Everything that stands in a literal, itself included, with the level that it stands at. -/
def within (level : Nat) : Literal → List (Nat × Literal)
  | .atom a => [(level, .atom a)]
  | .list items => (level, .list items) :: withinItems (level + 1) items
  | .tuple items => (level, .tuple items) :: withinItems (level + 1) items
  | .dict entries => (level, .dict entries) :: withinEntries (level + 1) entries

def withinItems (level : Nat) : List Literal → List (Nat × Literal)
  | [] => []
  | item :: rest => within level item ++ withinItems level rest

def withinEntries (level : Nat) : List (Literal × Literal) → List (Nat × Literal)
  | [] => []
  | (key, item) :: rest => within level key ++ within level item ++ withinEntries level rest

end

theorem withinItems_eq (level : Nat) (items : List Literal) :
    withinItems level items = items.flatMap (within level) := by
  induction items with
  | nil => rfl
  | cons item rest ih => rw [withinItems, ih, List.flatMap_cons]

theorem withinEntries_eq (level : Nat) (entries : List (Literal × Literal)) :
    withinEntries level entries = (Literal.parts (.dict entries)).flatMap (within level) := by
  rw [parts]
  induction entries with
  | nil => rfl
  | cons entry rest ih =>
      rw [withinEntries, ih, List.flatMap_cons, List.flatMap_append, List.flatMap_cons,
        List.flatMap_cons, List.flatMap_nil, List.append_nil]

theorem within_eq (level : Nat) (literal : Literal) : within level literal =
    (level, literal) :: literal.parts.flatMap (within (level + 1)) := by
  cases literal with
  | atom a => rfl
  | list items => rw [within, withinItems_eq, parts]
  | tuple items => rw [within, withinItems_eq, parts]
  | dict entries => rw [within, withinEntries_eq]

/-- What stands in a literal is the same at every level. -/
theorem map_snd_within (level : Nat) (literal : Literal) :
    (within level literal).map Prod.snd = (within 0 literal).map Prod.snd := by
  have each (literal : Literal) : ∀ level, (within level literal).map Prod.snd =
      (within 0 literal).map Prod.snd := by
    induction literal using forall_of_parts with
    | step literal ih =>
        intro level
        rw [within_eq, within_eq 0, List.map_cons, List.map_cons, List.map_flatMap,
          List.map_flatMap]
        refine congrArg (literal :: ·) (List.flatMap_congr fun child member => ?_)
        exact (ih child member _).trans (ih child member _).symm
  exact each literal level

/-- The array holds something, and its entries on one line are as long as what is left of the
wrap length at its level, or longer. -/
def Overlong (layout : Layout) (level : Nat) (array : Literal) : Prop :=
  array.parts.isEmpty = false ∧
    layout.wrapLength - level * columnsPerLevel ≤ array.content.length

instance (layout : Layout) (level : Nat) (array : Literal) :
    Decidable (array.Overlong layout level) :=
  inferInstanceAs (Decidable (_ ∧ _))

/-- Everything in the literal fits on a line. -/
def Fits (layout : Layout) (literal : Literal) : Prop :=
  ∀ place ∈ literal.within 0, place.2.parts.isEmpty = false →
    (place.2.content.length : Int) < layout.wrapLength - place.1 * columnsPerLevel

instance (layout : Layout) (literal : Literal) : Decidable (literal.Fits layout) :=
  inferInstanceAs (Decidable (∀ place ∈ literal.within 0, place.2.parts.isEmpty = false →
    (place.2.content.length : Int) < layout.wrapLength - place.1 * columnsPerLevel))

/-- The array does not fit, or it stands around one that does not. -/
def Crowded (layout : Layout) (level : Nat) (array : Literal) : Prop :=
  ∃ place ∈ array.within level, place.2.Overlong layout place.1

instance (layout : Layout) (level : Nat) (array : Literal) :
    Decidable (array.Crowded layout level) :=
  inferInstanceAs (Decidable (∃ place ∈ array.within level, place.2.Overlong layout place.1))

theorem crowded_iff {layout : Layout} {level : Nat} {literal : Literal} :
    literal.Crowded layout level ↔ literal.Overlong layout level ∨
      ∃ child ∈ literal.parts, child.Crowded layout (level + 1) := by
  unfold Crowded
  rw [within_eq, List.exists_mem_cons_iff]
  simp only [List.mem_flatMap]
  refine or_congr Iff.rfl ⟨?_, ?_⟩
  · rintro ⟨place, ⟨child, listed, inside⟩, overlong⟩
    exact ⟨child, listed, place, inside, overlong⟩
  · rintro ⟨child, listed, place, inside, overlong⟩
    exact ⟨place, ⟨child, listed, inside⟩, overlong⟩

/-- What has no parts is not crowded. -/
theorem not_crowded_of_parts_eq_nil {layout : Layout} {level : Nat} {literal : Literal}
    (none : literal.parts = []) : ¬literal.Crowded layout level := by
  rw [crowded_iff, Overlong, none]
  rintro (⟨some, -⟩ | ⟨_, listed, -⟩)
  · cases some
  · cases listed

theorem not_crowded_iff_fits {layout : Layout} {literal : Literal} :
    ¬literal.Crowded layout 0 ↔ literal.Fits layout := by
  simp only [Crowded, Overlong, Fits, not_exists, not_and, Int.not_le]

/-- What fits goes on to fit when lines may be longer. -/
theorem Fits.wider {layout wider : Layout} {literal : Literal} (fits : literal.Fits layout)
    (longer : layout.wrapLength ≤ wider.wrapLength) : literal.Fits wider := by
  intro place member some
  have short := fits place member some
  omega

/-- Code that is written as it stands, with a line feed in it. -/
def holdsFeed : Literal → Bool
  | .atom (.code text) => text.toList.contains '\n'
  | _ => false

/-- No code in the literal holds a line feed. -/
def Feedless (literal : Literal) : Prop := ∀ place ∈ literal.within 0, holdsFeed place.2 = false

instance (literal : Literal) : Decidable literal.Feedless :=
  inferInstanceAs (Decidable (∀ place ∈ literal.within 0, holdsFeed place.2 = false))

/-- What holds of everything in a literal holds of it and of everything in its items and keys. -/
theorem forall_within_iff {p : Literal → Prop} {literal : Literal} :
    (∀ place ∈ literal.within 0, p place.2) ↔
      p literal ∧ ∀ child ∈ literal.parts, ∀ place ∈ child.within 0, p place.2 := by
  have placed (level : Nat) (literal : Literal) : (∀ place ∈ literal.within level, p place.2) ↔
      ∀ part ∈ (literal.within level).map Prod.snd, p part := by
    rw [List.forall_mem_map]
  have child (literal : Literal) : (∀ place ∈ literal.within 1, p place.2) ↔
      ∀ place ∈ literal.within 0, p place.2 := by
    rw [placed, map_snd_within, ← placed]
  rw [within_eq, List.forall_mem_cons, List.forall_mem_flatMap]
  simp only [child]

theorem feedless_iff {literal : Literal} : literal.Feedless ↔
    holdsFeed literal = false ∧ ∀ child ∈ literal.parts, child.Feedless :=
  forall_within_iff (p := fun part => holdsFeed part = false)

/-- A word of the reader holds no line feed. -/
theorem feed_not_mem_of_isWord {letters : List Char} (word : Reading.isWord letters = true) :
    '\n' ∉ letters :=
  not_mem_of_all (Reading.all_isWordChar_of_isWord word) (by decide)

theorem feed_not_mem_intText (n : Int) : '\n' ∉ intText n :=
  feed_not_mem_of_isWord (Reading.isWord_of_ofWord? (Reading.ofWord?_intText n))

theorem feed_not_mem_atomText {a : Atom} (feedless : holdsFeed (.atom a) = false) :
    '\n' ∉ atomText a := by
  cases a with
  | null => decide
  | bool b => cases b <;> decide
  | int n => exact feed_not_mem_intText n
  | float x =>
      exact feed_not_mem_of_isWord (Reading.isWord_of_ofWord? (Reading.ofWord?_doubleLiteral x))
  | word w => exact not_mem_of_all (all_isInline_encode w.chars) (by decide)
  | code text => simpa [holdsFeed, atomText] using feedless

theorem feed_mem_onOneLine {texts : List (List Char)} :
    '\n' ∈ onOneLine texts ↔ ∃ text ∈ texts, '\n' ∈ text := by
  rw [← feed_mem_joined (by decide : '\n' ∉ [',', ' ']) texts]
  simp [onOneLine]

/-- On one line nothing holds a line feed but code. -/
theorem feed_not_mem_inline {literal : Literal} (feedless : literal.Feedless) :
    '\n' ∉ literal.inline := by
  induction literal using forall_of_parts with
  | step literal ih =>
      obtain ⟨own, inside⟩ := feedless_iff.1 feedless
      by_cases compound : ∀ a, literal ≠ .atom a
      · rw [inline_eq compound, feed_mem_onOneLine, feed_mem_textsBy feed_not_mem_intText]
        rintro ⟨child, listed, member⟩
        exact ih child listed (inside child listed) member
      · obtain ⟨a, rfl⟩ := not_forall_not.1 compound
        exact feed_not_mem_atomText own

/-! ## What the printer wraps -/

theorem feed_mem_onLines (layout : Layout) (level : Nat) (texts : List (List Char)) :
    '\n' ∈ onLines layout level texts := by
  simp [onLines]

/-- What is known of a text at a level: it is wrapped where something in it does not fit, holds a
line feed just then, and is on one line otherwise. -/
structure WrapsWhereCrowded (layout : Layout) (level : Nat) (literal : Literal) : Prop where
  spread : textAt layout level literal =
    textWhere layout (fun level array => decide (array.Crowded layout level)) level literal
  feeds : '\n' ∈ textAt layout level literal ↔ literal.Crowded layout level
  flat : ¬literal.Crowded layout level → textAt layout level literal = literal.inline

section

variable {layout : Layout} {level : Nat} {array : Literal}

/-- Where nothing in an array is crowded, its entries are written as on one line. -/
theorem textsBy_textAt_of_fits
    (inside : ∀ child ∈ array.parts, WrapsWhereCrowded layout (level + 1) child)
    (fits : ¬∃ child ∈ array.parts, child.Crowded layout (level + 1)) :
    array.textsBy (textAt layout (level + 1)) = array.textsBy inline :=
  textsBy_congr fun child listed =>
    (inside child listed).flat fun crowded => fits ⟨child, listed, crowded⟩

/-- An array is wrapped just when it is crowded, if this is known of what stands in it. -/
theorem wraps_iff_crowded
    (inside : ∀ child ∈ array.parts, WrapsWhereCrowded layout (level + 1) child) :
    (!(array.textsBy (textAt layout (level + 1))).isEmpty &&
      wraps layout level (joined [',', ' '] (array.textsBy (textAt layout (level + 1))))) = true ↔
        array.Crowded layout level := by
  have feeds : '\n' ∈ joined [',', ' '] (array.textsBy (textAt layout (level + 1))) ↔
      ∃ child ∈ array.parts, child.Crowded layout (level + 1) := by
    rw [feed_mem_joined (by decide), feed_mem_textsBy feed_not_mem_intText]
    exact exists_congr fun child => and_congr_right fun listed => (inside child listed).feeds
  have some : (array.textsBy (textAt layout (level + 1))).isEmpty = array.parts.isEmpty := by
    rw [Bool.eq_iff_iff, List.isEmpty_iff, List.isEmpty_iff, textsBy_eq_nil_iff]
  rw [crowded_iff, some, wraps, Bool.and_eq_true, Bool.or_eq_true, List.contains_iff_mem, feeds,
    decide_eq_true_eq]
  by_cases crowded : ∃ child ∈ array.parts, child.Crowded layout (level + 1)
  · have ⟨child, listed, _⟩ := crowded
    have holds : array.parts.isEmpty = false := by
      cases listing : array.parts with
      | nil =>
          rw [listing] at listed
          cases listed
      | cons => rfl
    exact iff_of_true ⟨by rw [holds]; rfl, .inl crowded⟩ (.inr crowded)
  · rw [textsBy_textAt_of_fits inside crowded, ← content, or_iff_left crowded,
      or_iff_right crowded, Overlong, Bool.not_eq_true']

/-- A step of the printer: what is known of everything in an array is known of the array. -/
theorem WrapsWhereCrowded.of_parts (compound : ∀ a, array ≠ .atom a)
    (inside : ∀ child ∈ array.parts, WrapsWhereCrowded layout (level + 1) child) :
    WrapsWhereCrowded layout level array := by
  have decided := wraps_iff_crowded inside
  have text := textAt_eq layout level compound
  rw [arrayText_eq, Bool.eq_iff_iff.2 (decided.trans (decide_eq_true_iff).symm)] at text
  by_cases crowded : array.Crowded layout level
  · rw [decide_eq_true crowded, if_pos rfl] at text
    refine ⟨?_, ?_, fun own => absurd crowded own⟩
    · rw [text, textWhere, textWith_eq _ _ compound, if_pos (decide_eq_true crowded)]
      exact congrArg (onLines layout level) (textsBy_congr fun child listed =>
        (inside child listed).spread)
    · rw [text]
      exact iff_of_true (feed_mem_onLines ..) crowded
  · rw [decide_eq_false crowded, if_neg Bool.false_ne_true] at text
    have fits := (not_or.1 (mt crowded_iff.2 crowded)).2
    refine ⟨?_, ?_, fun _ => ?_⟩
    · rw [text, textWhere, textWith_eq _ _ compound,
        if_neg (by simpa using crowded)]
      exact congrArg onOneLine (textsBy_congr fun child listed => (inside child listed).spread)
    · rw [text, feed_mem_onOneLine, feed_mem_textsBy feed_not_mem_intText]
      refine iff_of_false ?_ crowded
      rintro ⟨child, listed, feed⟩
      exact fits ⟨child, listed, (inside child listed).feeds.1 feed⟩
    · rw [text, textsBy_textAt_of_fits inside fits, inline_eq compound]

end

/-- The printer decides as the value tells: an array is written one entry a line just when it, or
an array in it, does not fit on a line. -/
theorem wrapsWhereCrowded {literal : Literal} (feedless : literal.Feedless) (layout : Layout)
    (level : Nat) : WrapsWhereCrowded layout level literal := by
  induction literal using forall_of_parts generalizing level with
  | step literal ih =>
      obtain ⟨own, inside⟩ := feedless_iff.1 feedless
      by_cases compound : ∀ a, literal ≠ .atom a
      · exact .of_parts compound fun child listed => ih child listed (inside child listed) _
      · obtain ⟨a, rfl⟩ := not_forall_not.1 compound
        have fits : ¬(Literal.atom a).Crowded layout level := not_crowded_of_parts_eq_nil rfl
        exact ⟨rfl, iff_of_false (feed_not_mem_atomText own) fits, fun _ => rfl⟩

end PhpDecl.Literal

namespace PhpDecl.Graph

open Literal

/-- Whether arrays are wrapped can be told from the value. A value that is accepted, and in which
no code holds a line feed, is written on one line just when everything in it fits; otherwise its
text holds a line feed, and written one entry a line are the arrays that do not fit and those
around them. So what is on one line stays as it is when lines may be longer. -/
theorem dump_eq_textWhere {graph : Graph} {value : Value} {literal : ShallowLiteral}
    (accepted : graph.literal? value = .ok literal) (feedless : literal.literal.Feedless)
    (layout : Layout) :
    ∃ text, graph.dump layout value = .ok text ∧
      (text = literal.literal.inline ↔ literal.literal.Fits layout) ∧
      (¬literal.literal.Fits layout → '\n' ∈ text) ∧
      text = textWhere layout (fun level array => decide (array.Crowded layout level)) 0
        literal.literal ∧
      ('\n' ∉ text → ∀ wider : Layout, layout.wrapLength ≤ wider.wrapLength →
        graph.dump wider value = .ok text) := by
  have dumped (layout : Layout) :
      graph.dump layout value = .ok (textAt layout 0 literal.literal) := by
    rw [dump_eq, accepted]
    rfl
  have wraps := wrapsWhereCrowded feedless layout 0
  have flat {layout : Layout} (fits : literal.literal.Fits layout) :
      textAt layout 0 literal.literal = literal.literal.inline :=
    (wrapsWhereCrowded feedless layout 0).flat (not_crowded_iff_fits.2 fits)
  have fits_of_flat (oneLine : '\n' ∉ textAt layout 0 literal.literal) :
      literal.literal.Fits layout := not_crowded_iff_fits.1 (mt wraps.feeds.2 oneLine)
  refine ⟨_, dumped layout, ⟨fun same => fits_of_flat ?_, flat⟩, fun tight => ?_, wraps.spread,
    fun oneLine wider longer => ?_⟩
  · rw [same]
    exact feed_not_mem_inline feedless
  · exact not_not.1 (mt fits_of_flat tight)
  · have fits := fits_of_flat oneLine
    rw [dumped wider, flat (fits.wider longer), flat fits]

/-- Two arrays under keys. -/
def table : Literal :=
  .dict
    [(.atom (.word (.text "ports")), .list [.atom (.int 80), .atom (.int 443)]),
      (.atom (.word (.text "names")),
        .list [.atom (.word (.text "alpha")), .atom (.word (.text "beta")),
          .atom (.word (.text "gamma"))])]

/-- On lines of less than 28 characters the names do not fit, and so the table does not; the
ports do. -/
def tableText : String :=
  "[\n\t'ports' => [80, 443],\n\t'names' => [\n\t\t'alpha',\n\t\t'beta',\n\t\t'gamma',\n\t],\n]"

theorem dump_table :
    dump (embed .empty table).1 ⟨"\t", 28⟩ (embed .empty table).2 =
        .ok tableText.toList ∧
      dump (embed .empty table).1 .standard (embed .empty table).2 =
        .ok table.inline := by
  have accepted : literal? (embed .empty table).1 (embed .empty table).2 =
      .ok ⟨table, by decide, by decide +kernel⟩ := by
    with_unfolding_all rfl
  have feedless : table.Feedless := by decide
  obtain ⟨text, narrow, -, -, same, -⟩ := dump_eq_textWhere accepted feedless ⟨"\t", 28⟩
  obtain ⟨line, wide, fits, -⟩ := dump_eq_textWhere accepted feedless .standard
  have spread : textWhere ⟨"\t", 28⟩
      (fun level array => decide (array.Crowded ⟨"\t", 28⟩ level)) 0 table =
        tableText.toList := by
    decide +kernel
  exact ⟨by rw [narrow, same, spread], by rw [wide, fits.2 (by decide +kernel)]⟩

end PhpDecl.Graph
