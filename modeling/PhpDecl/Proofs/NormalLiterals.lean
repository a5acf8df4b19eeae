import Mathlib.Algebra.Ring.Nat
import PhpDecl.Proofs.ArrayLines
import PhpDecl.Proofs.NormalForm

/-!
# Literals in normal form

A value without code is written in normal form, so that normalizing leaves its text as it is
(`Graph.normalize_dump`). The text ends in ink, and so does each of its lines, for a line breaks off
behind a bracket or a comma. Of the control characters it holds tabs and line feeds only; the line
feeds are those of the arrays that are wrapped, one behind the opening bracket of each and one
behind each of its entries (`Literal.count_feed_textAt`).
-/

namespace PhpDecl.Literal

open Text

/-! ## Characters -/

theorem isStrayControl_of_isWordChar {c : Char} (word : Reading.isWordChar c = true) :
    isStrayControl c = false := by
  refine Bool.eq_false_iff.2 fun stray => ?_
  have low : c.toNat < 0x80 := by
    simp only [isStrayControl, Bool.or_eq_true, Bool.and_eq_true, decide_eq_true_eq,
      beq_iff_eq] at stray
    omega
  exact forall_low (P := fun c => Reading.isWordChar c = true → ¬isStrayControl c = true)
    (by decide +kernel) low word stray

theorem isStrayControl_of_mem_atomText {a : Atom} (codeless : isCode (.atom a) = false) {c : Char}
    (member : c ∈ atomText a) : isStrayControl c = false := by
  have word {letters : List Char} (word : Reading.isWord letters = true) (inside : c ∈ letters) :
      isStrayControl c = false :=
    isStrayControl_of_isWordChar
      (List.all_eq_true.1 (Reading.all_isWordChar_of_isWord word) c inside)
  cases a with
  | null => exact word (by decide) member
  | bool b => exact word (by cases b <;> decide) member
  | int n => exact word (Reading.isWord_of_ofWord? (Reading.ofWord?_intText n)) member
  | float x => exact word (Reading.isWord_of_ofWord? (Reading.ofWord?_doubleLiteral x)) member
  | word w => exact isStrayControl_of_isRaw (Quoted.isRaw_of_mem_encode member)
  | code text => cases codeless

/-- An array is made of the texts of its entries, of indentation and of a few signs. -/
theorem all_arrayText {p : Char → Bool} {layout : Layout} {level : Nat} {texts : List (List Char)}
    (signs : ['[', ']', ',', ' ', '\n'].all p = true) (unit : layout.unit.all p = true)
    (each : ∀ text ∈ texts, text.all p = true) : (arrayText layout level texts).all p = true := by
  have margin := layout.all_margin unit level
  simp only [List.all_cons, List.all_nil, Bool.and_true, Bool.and_eq_true] at signs
  obtain ⟨opening, closing, comma, space, feed⟩ := signs
  rcases arrayText_cases layout level texts with ⟨-, wrapped, -⟩ | ⟨-, flat⟩
  · rw [wrapped, onLines]
    simp only [List.all_append, List.all_cons, List.all_nil, List.all_flatMap, Bool.and_true,
      Bool.and_eq_true, opening, closing, comma, feed, margin, unit, true_and]
    exact List.all_eq_true.2 fun text member => each text member
  · have two : [',', ' '].all p = true := by simp [comma, space]
    have inside := all_joined two each
    rw [flat, onOneLine, List.all_append, List.all_cons, opening, inside, List.all_cons, closing]
    rfl

theorem all_textsBy {p : Char → Bool} {write : Literal → List Char} {literal : Literal}
    (arrow : " => ".toList.all p = true)
    (each : ∀ child ∈ literal.parts, (write child).all p = true) :
    ∀ text ∈ literal.textsBy write, text.all p = true := by
  intro text member
  rcases mem_textsBy member with ⟨item, listed, rfl⟩ | ⟨key, inFront, item, listed, rfl⟩
  · exact each item listed
  · rw [List.all_append, List.all_append, each key inFront, arrow, each item listed]
    rfl

/-- No stray control stands in the text of a literal. -/
theorem all_textAt {layout : Layout} (blank : layout.unit.all isPad = true) {literal : Literal}
    (codeless : literal.Codeless) (level : Nat) :
    (textAt layout level literal).all (!isStrayControl ·) = true := by
  have unit : layout.unit.all (!isStrayControl ·) = true :=
    List.all_eq_true.2 (List.filter_eq_self.1 (filter_of_all_isPad blank))
  induction literal using forall_of_parts generalizing level with
  | step literal ih =>
      obtain ⟨own, inside⟩ := codeless_iff.1 codeless
      by_cases compound : ∀ a, literal ≠ .atom a
      · rw [textAt_eq layout level compound]
        exact all_arrayText (by decide) unit (all_textsBy (by decide) fun child listed =>
          ih child listed (inside child listed) _)
      · obtain ⟨a, rfl⟩ := not_forall_not.1 compound
        refine List.all_eq_true.2 fun c member => ?_
        rw [isStrayControl_of_mem_atomText own member]
        rfl

/-! ## The last character -/

theorem exists_arrayText_concat (layout : Layout) (level : Nat) (texts : List (List Char)) :
    ∃ init, arrayText layout level texts = init ++ [']'] := by
  rcases arrayText_cases layout level texts with ⟨-, wrapped, -⟩ | ⟨-, flat⟩
  · exact ⟨_, wrapped⟩
  · exact ⟨_, flat⟩

/-- The text of a literal ends in ink. -/
theorem exists_textAt_concat {literal : Literal} (codeless : literal.Codeless) (layout : Layout)
    (level : Nat) :
    ∃ init c, textAt layout level literal = init ++ [c] ∧ isPad c = false ∧ c ≠ '\n' := by
  have word {letters : List Char} (word : Reading.isWord letters = true) :
      ∃ init c, letters = init ++ [c] ∧ isPad c = false ∧ c ≠ '\n' := by
    have all := Reading.all_isWordChar_of_isWord word
    rcases List.eq_nil_or_concat letters with rfl | ⟨init, c, rfl⟩
    · cases word
    · rw [List.concat_eq_append] at all ⊢
      have last := List.all_eq_true.1 all c (by simp)
      exact ⟨init, c, rfl, isPad_of_isWordChar last, Reading.ne_of_isWordChar last (by decide)⟩
  by_cases compound : ∀ a, literal ≠ .atom a
  · obtain ⟨init, same⟩ := exists_arrayText_concat layout level
      (literal.textsBy (textAt layout (level + 1)))
    exact ⟨init, ']', (textAt_eq layout level compound).trans same, by decide, by decide⟩
  · obtain ⟨a, rfl⟩ := not_forall_not.1 compound
    rw [textAt]
    cases a with
    | null => exact word (by decide)
    | bool b => exact word (by cases b <;> decide)
    | int n => exact word (Reading.isWord_of_ofWord? (Reading.ofWord?_intText n))
    | float x => exact word (Reading.isWord_of_ofWord? (Reading.ofWord?_doubleLiteral x))
    | word w =>
        rw [atomText, Quoted.encode]
        split
        · exact ⟨_, '\'', rfl, by decide, by decide⟩
        · exact ⟨_, '"', rfl, by decide, by decide⟩
    | code text => cases (codeless_iff.1 codeless).1

/-! ## Normal form -/

/-- Where every line breaks off behind a bracket or a comma and the text ends in ink, so does each
of its lines. -/
theorem exists_line_concat {text : List Char} (breaks : BreaksOff text)
    (ends : ∃ init c, text = init ++ [c] ∧ isPad c = false ∧ c ≠ '\n') {line : List Char}
    (member : line ∈ lines text) (filled : line ≠ []) :
    ∃ init c, line = init ++ [c] ∧ isPad c = false := by
  obtain ⟨front, back, split⟩ := List.append_of_mem member
  by_cases more : back = []
  · -- The last line ends where the text does.
    obtain ⟨init, c, concat, ink, -⟩ := ends
    obtain ⟨before, last, rfl⟩ := List.eq_nil_or_concat line |>.resolve_left filled
    have whole := eq_of_lines split
    rw [more, List.flatMap_nil, List.append_nil, concat, List.concat_eq_append,
      ← List.append_assoc] at whole
    obtain ⟨-, same⟩ := List.append_inj' whole rfl
    exact ⟨before, last, List.concat_eq_append .., (List.cons.inj same).1 ▸ ink⟩
  · obtain ⟨before, c, same, mark⟩ := breaks.ends_line split filled more
    exact ⟨before, c, same, by rcases mark with rfl | rfl <;> decide⟩

/-- A literal without code is written in normal form. -/
theorem isNormal_textAt {layout : Layout} (blank : layout.unit.all isPad = true)
    {literal : Literal} (codeless : literal.Codeless) :
    IsNormal (textAt layout 0 literal) := by
  have laidOut : LaidOut .square layout.unit id 0 (textAt layout 0 literal) :=
    laidOut_textAt blank codeless fun _ => rfl
  have ends := exists_textAt_concat codeless layout 0
  refine ⟨fun c member => ?_, fun line member => ?_, ?_, ?_⟩
  · have plain := List.all_eq_true.1 (all_textAt blank codeless 0) c member
    exact isStrayControl_eq_false_iff.1 (by simpa using plain)
  · by_cases filled : line = []
    · simp [filled]
    · obtain ⟨init, c, rfl, ink⟩ := exists_line_concat laidOut.breaksOff ends member filled
      rw [isPad, Bool.or_eq_false_iff, beq_eq_false_iff_ne, beq_eq_false_iff_ne] at ink
      simpa using ink
  · obtain ⟨c, rest, same, -, other⟩ := laidOut.starts
    rw [same, List.head?_cons]
    exact fun feed => other (Option.some.inj feed)
  · obtain ⟨init, c, same, -, other⟩ := ends
    rw [same, List.getLast?_concat]
    exact fun feed => other (Option.some.inj feed)

/-! ## Line feeds -/

/-- How many entries an array has. -/
def entryCount : Literal → Nat
  | .atom _ => 0
  | .list items => items.length
  | .tuple items => items.length
  | .dict entries => entries.length

/-- How many line feeds the wrapped arrays of a literal are written with: each of these is crowded,
and has one behind its opening bracket and one behind each of its entries. -/
def wrappingFeeds (layout : Layout) (level : Nat) (literal : Literal) : Nat :=
  ((literal.within level).map fun place =>
    if place.2.Crowded layout place.1 then place.2.entryCount + 1 else 0).sum

theorem wrappingFeeds_eq (layout : Layout) (level : Nat) (literal : Literal) :
    literal.wrappingFeeds layout level =
      (if literal.Crowded layout level then literal.entryCount + 1 else 0) +
        (literal.parts.map (wrappingFeeds layout (level + 1))).sum := by
  rw [wrappingFeeds, within_eq, List.map_cons, List.sum_cons, List.flatMap_def, List.map_flatten,
    List.sum_flatten, List.map_map, List.map_map]
  rfl

theorem length_textsBy (write : Literal → List Char) (literal : Literal) :
    (literal.textsBy write).length = literal.entryCount := by
  cases literal with
  | atom a => rfl
  | list items => exact List.length_map ..
  | tuple items => exact List.length_map ..
  | dict entries =>
      rw [textsBy, entryCount]
      generalize (0 : Int) = next
      induction entries generalizing next with
      | nil => rfl
      | cons entry rest ih => rw [entryTextsBy, List.length_cons, List.length_cons, ih]

/-- The line feeds in the entries of an array are those in its items and keys, for the keys that are
left out hold none. -/
theorem sum_count_feed_textsBy {write : Literal → List Char} {literal : Literal}
    (plain : ∀ n, '\n' ∉ write (.atom (.int n))) :
    ((literal.textsBy write).map (List.count '\n')).sum =
      (literal.parts.map fun child => (write child).count '\n').sum := by
  cases literal with
  | atom a => rfl
  | list items => rw [textsBy, parts, List.map_map]; rfl
  | tuple items => rw [textsBy, parts, List.map_map]; rfl
  | dict entries =>
      rw [textsBy, parts]
      generalize (0 : Int) = next
      induction entries generalizing next with
      | nil => rfl
      | cons entry rest ih =>
          obtain ⟨key, item⟩ := entry
          have own : (if key.intKey? == some next then write item
              else write key ++ " => ".toList ++ write item).count '\n' =
                (write key).count '\n' + (write item).count '\n' := by
            split
            next supplied =>
              rw [eq_of_supplied supplied, List.count_eq_zero.2 (plain next), Nat.zero_add]
            next =>
              rw [List.count_append, List.count_append]
              rfl
          rw [entryTextsBy, List.map_cons, List.sum_cons, own, ih, List.flatMap_cons,
            List.map_append, List.sum_append]
          simp [Nat.add_assoc]

theorem count_feed_onOneLine (texts : List (List Char)) :
    (onOneLine texts).count '\n' = (texts.map (List.count '\n')).sum := by
  have inside : (joined [',', ' '] texts).count '\n' = (texts.map (List.count '\n')).sum := by
    induction texts with
    | nil => rfl
    | cons text rest ih =>
        cases rest with
        | nil => simp [joined]
        | cons second others =>
            rw [joined_cons_of_ne_nil _ _ (List.cons_ne_nil _ _), List.count_append,
              List.count_append, ih, List.map_cons, List.sum_cons]
            rfl
  simp [onOneLine, inside]

theorem count_feed_onLines {layout : Layout} (blank : layout.unit.all isPad = true) (level : Nat)
    (texts : List (List Char)) :
    (onLines layout level texts).count '\n' =
      texts.length + 1 + (texts.map (List.count '\n')).sum := by
  have unit : layout.unit.count '\n' = 0 :=
    List.count_eq_zero.2 (Brackets.feed_not_mem_of_all_isPad blank)
  have margin : (layout.margin level).count '\n' = 0 :=
    List.count_eq_zero.2 (Brackets.feed_not_mem_of_all_isPad (layout.all_margin blank level))
  have line (text : List Char) :
      (layout.unit ++ text ++ [',', '\n'] ++ layout.margin level).count '\n' =
        text.count '\n' + 1 := by
    simp [unit, margin]
  have lines : (texts.flatMap fun text =>
      layout.unit ++ text ++ [',', '\n'] ++ layout.margin level).count '\n' =
        texts.length + (texts.map (List.count '\n')).sum := by
    induction texts with
    | nil => rfl
    | cons text rest ih =>
        rw [List.flatMap_cons, List.count_append, ih, line, List.map_cons, List.sum_cons,
          List.length_cons]
        omega
  have ends : ['[', '\n'].count '\n' = 1 ∧ [']'].count '\n' = 0 := by decide
  rw [onLines, List.count_append, List.count_append, List.count_append, lines, margin, ends.1,
    ends.2]
  omega

/-- The line feeds in the text of a literal are those of its wrapped arrays. -/
theorem count_feed_textAt {layout : Layout} (blank : layout.unit.all isPad = true)
    {literal : Literal} (codeless : literal.Codeless) (level : Nat) :
    (textAt layout level literal).count '\n' = literal.wrappingFeeds layout level := by
  induction literal using forall_of_parts generalizing level with
  | step literal ih =>
      obtain ⟨own, inside⟩ := codeless_iff.1 codeless
      rw [wrappingFeeds_eq]
      by_cases compound : ∀ a, literal ≠ .atom a
      · have entries : ((literal.textsBy (textAt layout (level + 1))).map (List.count '\n')).sum =
            (literal.parts.map (wrappingFeeds layout (level + 1))).sum := by
          rw [sum_count_feed_textsBy feed_not_mem_intText]
          exact congrArg List.sum (List.map_congr_left fun child listed =>
            ih child listed (inside child listed) _)
        have wrapped := wraps_iff_crowded fun child listed =>
          wrapsWhereCrowded (inside child listed).feedless layout (level + 1)
        rw [textAt_eq layout level compound, arrayText_eq]
        by_cases crowded : literal.Crowded layout level
        · rw [if_pos (wrapped.2 crowded), if_pos crowded, count_feed_onLines blank, entries,
            length_textsBy]
        · rw [if_neg (mt wrapped.1 crowded), if_neg crowded, count_feed_onOneLine, entries,
            Nat.zero_add]
      · obtain ⟨a, rfl⟩ := not_forall_not.1 compound
        have inline := feed_not_mem_atomText (feedless_iff.1 codeless.feedless).1
        rw [textAt, List.count_eq_zero.2 inline, if_neg (not_crowded_of_parts_eq_nil rfl)]
        rfl

end PhpDecl.Literal

namespace PhpDecl.Graph

open Text Literal

variable {graph : Graph}

/-- Normalizing leaves the text of a value without code as it is, where lines are indented with
spaces and tabs. The text is in normal form: it holds no control characters but tabs and line feeds,
no line of it ends in a space or a tab, and no line feed stands at either end. Its line feeds are
those of the arrays that are wrapped, and each stands behind an opening bracket or a comma. The text
of a value that is no array with something in it holds none. -/
theorem normalize_dump {layout : Layout} {value : Value} {text : List Char}
    (blank : layout.unit.all isPad = true) (plain : ∀ code, ¬graph.Holds value (.code code))
    (dumped : graph.dump layout value = .ok text) :
    normalize text = text ∧ IsNormal text ∧
      (∃ literal, graph.unfold Literal.maxNesting value = .ok literal ∧
        text.count '\n' = literal.wrappingFeeds layout 0) ∧
      BreaksOff text ∧ (graph.parts value = [] → '\n' ∉ text) := by
  obtain ⟨literal, spelled, rfl⟩ := exists_of_dump dumped
  have codeless := codeless_of_unfold plain spelled
  have normal := isNormal_textAt blank codeless
  have laidOut : LaidOut .square layout.unit id 0 (literal.textAt layout 0) :=
    laidOut_textAt blank codeless fun _ => rfl
  refine ⟨normal.normalize_eq, normal, ⟨literal, spelled, count_feed_textAt blank codeless 0⟩,
    laidOut.breaksOff, fun empty feed => ?_⟩
  have parts := (shape_and_parts_of_unfold spelled).2
  rw [empty] at parts
  cases none : literal.parts with
  | nil =>
      have crowded := (wrapsWhereCrowded codeless.feedless layout 0).feeds.1 feed
      exact not_crowded_of_parts_eq_nil none crowded
  | cons => rw [none] at parts; cases parts

/-- A dictionary with control characters and spaces in its strings, and an empty list. -/
def unsettling : Graph :=
  ⟨#[.list [], .dict [(.text "k ", .text "a \n\x7f"), (.atom (.int 0), .node ⟨0⟩)]]⟩

def unsettlingText : String := "[\n \t'k ' => \"a \\n\\x7f\",\n \t[],\n]"

/-- On lines of less than 12 characters the dictionary is wrapped, with a line feed behind its
opening bracket and one behind each of its two entries. -/
theorem normalize_dump_unsettling :
    unsettling.dump ⟨" \t", 12⟩ (.node ⟨1⟩) = .ok unsettlingText.toList ∧
      normalize unsettlingText.toList = unsettlingText.toList ∧
      unsettlingText.toList.count '\n' = 3 ∧
      unsettling.dump ⟨" \t", 12⟩ (.node ⟨0⟩) = .ok "[]".toList ∧ '\n' ∉ "[]".toList := by
  have blank : (⟨" \t", 12⟩ : Layout).unit.all isPad = true := by decide
  let whole : Literal := .dict [(.atom (.word (.text "k ")), .atom (.word (.text "a \n\x7f"))),
    (.atom (.int 0), .list [])]
  have spelled : unsettling.unfold Literal.maxNesting (.node ⟨1⟩) = .ok whole := by
    with_unfolding_all rfl
  have dumped : unsettling.dump ⟨" \t", 12⟩ (.node ⟨1⟩) = .ok unsettlingText.toList := by
    with_unfolding_all rfl
  obtain ⟨same, -, ⟨literal, own, feeds⟩, -⟩ :=
    normalize_dump blank (not_holds_of_codeless (by decide) spelled) dumped
  have crowded : whole.wrappingFeeds ⟨" \t", 12⟩ 0 = 3 := by decide +kernel
  obtain rfl : whole = literal := Except.ok.inj (spelled.symm.trans own)
  have empty : unsettling.unfold Literal.maxNesting (.node ⟨0⟩) = .ok (.list []) := by
    with_unfolding_all rfl
  have line : unsettling.dump ⟨" \t", 12⟩ (.node ⟨0⟩) = .ok "[]".toList := by
    with_unfolding_all rfl
  obtain ⟨-, -, -, -, inline⟩ :=
    normalize_dump blank (not_holds_of_codeless (by decide) empty) line
  exact ⟨dumped, same, feeds.trans crowded, line, inline (by with_unfolding_all rfl)⟩

end PhpDecl.Graph
