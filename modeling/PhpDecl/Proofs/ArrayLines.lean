import PhpDecl.Proofs.Brackets
import PhpDecl.Proofs.Reading.Dump
import PhpDecl.Proofs.Wrapping

/-!
# The lines of arrays

Every line of a value that is written is indented by how deep it is nested: it starts with as many
units as arrays are open in front of it (`Graph.startsLine_dump`). The printer puts margins in at
three places, and splices in texts of items and keys that are laid out already. What makes these
fit is that every text is balanced and lays out its own lines, started with as many brackets open
as its level says (`Literal.LaidOut`), so that an array may treat the texts of its entries alike.
-/

namespace PhpDecl.Literal

open Text

/-! ## Texts that lay out their lines -/

/-- Every line feed stands behind an opening bracket or a comma. -/
def BreaksOff (text : List Char) : Prop :=
  ∀ before after, text = before ++ '\n' :: after →
    ∃ init c, before = init ++ [c] ∧ (c = '[' ∨ c = ',')

theorem breaksOff_of_inline {text : List Char} (inline : '\n' ∉ text) : BreaksOff text := by
  rintro before after rfl
  exact absurd (by simp) inline

theorem BreaksOff.append {first second : List Char} (one : BreaksOff first)
    (two : BreaksOff second) : BreaksOff (first ++ second) := by
  intro before after same
  rcases List.append_eq_append_iff.1 same with ⟨between, rfl, split⟩ | ⟨between, rfl, split⟩
  · obtain ⟨init, c, rfl, mark⟩ := two between after split
    exact ⟨first ++ init, c, by rw [List.append_assoc], mark⟩
  · cases between with
    | nil =>
        obtain ⟨init, c, none, -⟩ := two [] after split.symm
        simp at none
    | cons c between =>
        cases split
        exact one before between rfl

/-- A line feed behind an opening bracket or a comma. -/
theorem BreaksOff.feed {c : Char} {text : List Char} (mark : c = '[' ∨ c = ',')
    (rest : BreaksOff text) : BreaksOff (c :: '\n' :: text) := by
  intro before after same
  have mark_ne : c ≠ '\n' := by
    rcases mark with rfl | rfl <;> decide
  match before with
  | [] => exact absurd (List.cons.inj same).1 mark_ne
  | [d] => exact ⟨[], d, rfl, (List.cons.inj same).1 ▸ mark⟩
  | d :: e :: before =>
      obtain ⟨init, last, rfl, ends⟩ :=
        rest before after (List.cons.inj (List.cons.inj same).2).2
      exact ⟨d :: e :: init, last, rfl, ends⟩

/-- What is known of the text of a literal, or of an entry, where `n` brackets are open: it starts
in ink, closes what it opens, and indents its lines. -/
structure LaidOut (brackets : Brackets) (unit : List Char) (depth : Nat → Nat) (n : Nat)
    (text : List Char) : Prop where
  starts : ∃ c rest, text = c :: rest ∧ isPad c = false ∧ c ≠ '\n'
  balanced : brackets.Balanced text
  indents : brackets.IndentsFrom unit depth n text
  breaksOff : BreaksOff text

variable {brackets : Brackets} {unit : List Char} {depth : Nat → Nat} {n level : Nat}

theorem laidOut_of_inline {text : List Char}
    (starts : ∃ c rest, text = c :: rest ∧ isPad c = false ∧ c ≠ '\n')
    (balanced : brackets.Balanced text) (inline : '\n' ∉ text) :
    LaidOut brackets unit depth n text where
  starts := starts
  balanced := balanced
  indents := Brackets.indentsFrom_of_inline inline
  breaksOff := breaksOff_of_inline inline

/-- A text in front of another on its line, as a key in front of its item. -/
theorem LaidOut.append {first between second : List Char}
    (one : LaidOut brackets unit depth n first) (inline : '\n' ∉ between)
    (balanced : brackets.Balanced between) (two : LaidOut brackets unit depth n second) :
    LaidOut brackets unit depth n (first ++ between ++ second) where
  starts := by
    obtain ⟨c, rest, rfl, ink, own⟩ := one.starts
    exact ⟨c, rest ++ between ++ second, by simp only [List.cons_append], ink, own⟩
  balanced := (one.balanced.append balanced).append two.balanced
  indents := by
    have line := one.indents.append (one.balanced n) (Brackets.indentsFrom_of_inline inline)
    exact line.append ((one.balanced.append balanced) n) two.indents
  breaksOff := (one.breaksOff.append (breaksOff_of_inline inline)).append two.breaksOff

/-! ## Arrays -/

theorem balanced_joined {separator : List Char} (apart : brackets.Balanced separator)
    {texts : List (List Char)} (each : ∀ text ∈ texts, brackets.Balanced text) :
    brackets.Balanced (joined separator texts) := by
  induction texts with
  | nil => exact fun n => rfl
  | cons text rest ih =>
      rw [List.forall_mem_cons] at each
      cases rest with
      | nil => exact each.1
      | cons second others =>
          rw [joined_cons_of_ne_nil _ _ (List.cons_ne_nil _ _)]
          exact (each.1.append apart).append (ih each.2)

theorem laidOut_onOneLine {texts : List (List Char)}
    (each : ∀ text ∈ texts, LaidOut brackets unit depth (n + 1) text)
    (inline : '\n' ∉ joined [',', ' '] texts) :
    LaidOut brackets unit depth n (onOneLine texts) := by
  have comma : brackets.Balanced [',', ' '] := Brackets.balanced_of_neutral (by decide)
  refine laidOut_of_inline ⟨'[', _, rfl, rfl, by decide⟩ ?_ ?_
  · exact (balanced_joined comma fun text member => (each text member).balanced).enclosed
  · simpa [onOneLine] using inline

/-- The lines of an array behind its opening bracket, the last of which is the closing one. -/
def linesText (unit margin : List Char) (texts : List (List Char)) : List Char :=
  '\n' :: (margin ++
    (texts.flatMap (fun text => unit ++ text ++ [',', '\n'] ++ margin) ++ [']']))

theorem linesText_cons (unit margin text : List Char) (rest : List (List Char)) :
    linesText unit margin (text :: rest) =
      '\n' :: ((margin ++ unit) ++ (text ++ ',' :: linesText unit margin rest)) := by
  simp only [linesText, List.flatMap_cons, List.append_assoc, List.cons_append, List.nil_append]

theorem onLines_eq (layout : Layout) (level : Nat) (texts : List (List Char)) :
    onLines layout level texts = '[' :: linesText layout.unit (layout.margin level) texts := by
  simp only [onLines, linesText, List.append_assoc, List.cons_append, List.nil_append]

/-- Each text on a line of its own, behind one unit more than the closing bracket has. -/
theorem indentsFrom_linesText (blank : unit.all isPad = true) (own : depth (n + 1) = level + 1)
    {texts : List (List Char)} (each : ∀ text ∈ texts, LaidOut brackets unit depth (n + 1) text) :
    brackets.IndentsFrom unit depth (n + 1)
      (linesText unit (List.replicate level unit).flatten texts) := by
  induction texts with
  | nil =>
      have closing : brackets.closes ']' = true := by cases brackets <;> rfl
      have feed : brackets.IndentsFrom unit depth (n + 1) ('\n' ::
          ((List.replicate (depth (n + 1) - (brackets.closes ']').toNat) unit).flatten ++
            [']'])) :=
        .feed blank rfl (by decide) (Brackets.indentsFrom_of_inline (by decide))
      rw [closing, own] at feed
      exact feed
  | cons text rest ih =>
      rw [List.forall_mem_cons] at each
      obtain ⟨laidOut, others⟩ := each
      obtain ⟨c, more, rfl, ink, inline⟩ := laidOut.starts
      have comma : brackets.IndentsFrom unit depth (n + 1) [','] :=
        Brackets.indentsFrom_of_inline (by decide)
      have neutral : brackets.Balanced [','] := Brackets.balanced_of_neutral (by decide)
      have line := laidOut.indents.append (laidOut.balanced _)
        (comma.append (neutral _) (ih others))
      have feed := Brackets.IndentsFrom.feed blank ink inline line
      rw [laidOut.balanced.closes_head, own] at feed
      rw [linesText_cons, ← List.flatten_concat, ← List.replicate_succ']
      exact feed

theorem balanced_flatMap {α : Type} {write : α → List Char} {items : List α}
    (each : ∀ item ∈ items, brackets.Balanced (write item)) :
    brackets.Balanced (items.flatMap write) := by
  induction items with
  | nil => exact fun n => rfl
  | cons item rest ih =>
      rw [List.forall_mem_cons] at each
      rw [List.flatMap_cons]
      exact each.1.append (ih each.2)

theorem breaksOff_linesText {unit margin : List Char} (inline : '\n' ∉ margin ++ unit)
    {texts : List (List Char)} (each : ∀ text ∈ texts, BreaksOff text) {mark : Char}
    (marks : mark = '[' ∨ mark = ',') : BreaksOff (mark :: linesText unit margin texts) := by
  induction texts generalizing mark with
  | nil =>
      refine .feed marks (breaksOff_of_inline ?_)
      simp only [List.mem_append, not_or] at inline
      simpa using inline.1
  | cons text rest ih =>
      rw [List.forall_mem_cons] at each
      rw [linesText_cons]
      exact .feed marks ((breaksOff_of_inline inline).append (each.1.append (ih each.2 (.inr rfl))))

theorem laidOut_onLines {layout : Layout} (blank : layout.unit.all isPad = true)
    (own : depth (n + 1) = level + 1) {texts : List (List Char)}
    (each : ∀ text ∈ texts, LaidOut brackets layout.unit depth (n + 1) text) :
    LaidOut brackets layout.unit depth n (onLines layout level texts) := by
  have margin := layout.all_margin blank level
  have pads {text : List Char} (pads : text.all isPad = true) : brackets.Balanced text :=
    Brackets.balanced_of_all_isPad pads
  have comma : brackets.Balanced [',', '\n'] := Brackets.balanced_of_neutral (by decide)
  have feed : brackets.Balanced ['\n'] := Brackets.balanced_of_neutral (by decide)
  refine ⟨⟨'[', _, rfl, rfl, by decide⟩, ?_, ?_, ?_⟩
  · exact ((feed.append (pads margin)).append (balanced_flatMap fun text member =>
      (((pads blank).append (each text member).balanced).append comma).append
        (pads margin))).enclosed
  · rw [onLines_eq, Layout.margin_eq_flatten]
    have opening : brackets.IndentsFrom layout.unit depth n ['['] :=
      Brackets.indentsFrom_of_inline (by decide)
    exact opening.append (Brackets.step_opening brackets n) (indentsFrom_linesText blank own each)
  · rw [onLines_eq]
    refine breaksOff_linesText ?_ (fun text member => (each text member).breaksOff) (.inl rfl)
    apply Brackets.feed_not_mem_of_all_isPad
    rw [List.all_append, margin, blank]
    rfl

/-! ## Literals -/

def isCode : Literal → Bool
  | .atom (.code _) => true
  | _ => false

/-- There is no code in the literal. -/
def Codeless (literal : Literal) : Prop := ∀ place ∈ literal.within 0, isCode place.2 = false

instance (literal : Literal) : Decidable literal.Codeless :=
  inferInstanceAs (Decidable (∀ place ∈ literal.within 0, isCode place.2 = false))

theorem codeless_iff {literal : Literal} : literal.Codeless ↔
    isCode literal = false ∧ ∀ child ∈ literal.parts, child.Codeless :=
  forall_within_iff (p := fun part => isCode part = false)

theorem Codeless.feedless {literal : Literal} (codeless : literal.Codeless) :
    literal.Feedless := by
  rintro ⟨level, part⟩ listed
  have own := codeless _ listed
  cases part with
  | atom a =>
      cases a with
      | code text => cases own
      | _ => rfl
  | _ => rfl

theorem isPad_of_isWordChar {c : Char} (word : Reading.isWordChar c = true) :
    isPad c = false := by
  rw [isPad, Bool.or_eq_false_iff, beq_eq_false_iff_ne, beq_eq_false_iff_ne]
  exact ⟨Reading.ne_of_isWordChar word (by decide), Reading.ne_of_isWordChar word (by decide)⟩

theorem laidOut_word {letters : List Char} (word : Reading.isWord letters = true) :
    LaidOut brackets unit depth n letters := by
  have all := Reading.all_isWordChar_of_isWord word
  refine laidOut_of_inline ?_ (Brackets.balanced_of_neutral ?_) (feed_not_mem_of_isWord word)
  · cases letters with
    | nil => cases word
    | cons c rest =>
        rw [List.all_cons, Bool.and_eq_true] at all
        exact ⟨c, rest, rfl, isPad_of_isWordChar all.1,
          Reading.ne_of_isWordChar all.1 (by decide)⟩
  · exact List.all_eq_true.2 fun c member =>
      Brackets.isNeutral_of_class (p := Reading.isWordChar) (by decide)
        (List.all_eq_true.1 all c member)

theorem laidOut_atomText {a : Atom} (codeless : isCode (.atom a) = false) :
    LaidOut brackets unit depth n (atomText a) := by
  cases a with
  | null => exact laidOut_word (by decide)
  | bool b => cases b <;> exact laidOut_word (by decide)
  | int n => exact laidOut_word (Reading.isWord_of_ofWord? (Reading.ofWord?_intText n))
  | float x => exact laidOut_word (Reading.isWord_of_ofWord? (Reading.ofWord?_doubleLiteral x))
  | word w =>
      refine laidOut_of_inline ?_ (Brackets.balanced_encode w.chars)
        (feed_not_mem_atomText (a := .word w) rfl)
      rw [atomText, Quoted.encode]
      split
      · exact ⟨'\'', _, rfl, rfl, by decide⟩
      · exact ⟨'"', _, rfl, rfl, by decide⟩
  | code text => cases codeless

/-- The texts of entries lay out their lines when those of items and keys do. -/
theorem laidOut_textsBy {write : Literal → List Char} {literal : Literal}
    (each : ∀ child ∈ literal.parts, LaidOut brackets unit depth n (write child)) :
    ∀ text ∈ literal.textsBy write, LaidOut brackets unit depth n text := by
  intro text member
  rcases mem_textsBy member with ⟨item, listed, rfl⟩ | ⟨key, inFront, item, listed, rfl⟩
  · exact each item listed
  · exact (each key inFront).append (by decide) (Brackets.balanced_of_neutral (by decide))
      (each item listed)

/-- A line that another one follows ends where the text breaks off. -/
theorem BreaksOff.ends_line {text line : List Char} {front back : List (List Char)}
    (breaks : BreaksOff text) (split : lines text = front ++ line :: back) (filled : line ≠ [])
    (more : back ≠ []) : ∃ init c, line = init ++ [c] ∧ (c = '[' ∨ c = ',') := by
  obtain ⟨next, others, rfl⟩ := List.exists_cons_of_ne_nil more
  obtain ⟨init, last, rfl⟩ := List.eq_nil_or_concat line |>.resolve_left filled
  have whole := eq_of_lines split
  rw [List.flatMap_cons, List.cons_append] at whole
  obtain ⟨before, c, same, mark⟩ := breaks _ _ whole
  rw [List.concat_eq_append, ← List.append_assoc] at same
  obtain ⟨-, ends⟩ := List.append_inj' same rfl
  exact ⟨init, last, List.concat_eq_append .., (List.cons.inj ends).1 ▸ mark⟩

/-- A literal without code lays out its lines at its level, wherever inside it the level is what
goes with the brackets that are open. -/
theorem laidOut_textAt {layout : Layout} (blank : layout.unit.all isPad = true)
    {literal : Literal} (codeless : literal.Codeless)
    (deeper : ∀ i, depth (n + 1 + i) = level + 1 + i) :
    LaidOut brackets layout.unit depth n (textAt layout level literal) := by
  induction literal using forall_of_parts generalizing level n with
  | step literal ih =>
      obtain ⟨own, inside⟩ := codeless_iff.1 codeless
      by_cases compound : ∀ a, literal ≠ .atom a
      · have inner : ∀ child ∈ literal.parts,
            LaidOut brackets layout.unit depth (n + 1) (textAt layout (level + 1) child) := by
          intro child listed
          refine ih child listed (inside child listed) fun i => ?_
          have same := deeper (i + 1)
          rw [show n + 1 + 1 + i = n + 1 + (i + 1) by omega, same]
          omega
        have each := laidOut_textsBy inner
        rw [textAt_eq layout level compound]
        rcases arrayText_cases layout level (literal.textsBy (textAt layout (level + 1))) with
          ⟨-, wrapped, -⟩ | ⟨inline, flat⟩
        · rw [wrapped]
          exact laidOut_onLines blank (deeper 0) each
        · rw [flat]
          exact laidOut_onOneLine each inline
      · obtain ⟨a, rfl⟩ := not_forall_not.1 compound
        exact laidOut_atomText own

end PhpDecl.Literal

namespace PhpDecl.Graph

open Text Literal

variable {graph : Graph} {depth : Nat}

/-- A value without code spells out a literal without code. -/
theorem codeless_of_unfold {value : Value} {literal : Literal}
    (plain : ∀ code, ¬graph.Holds value (.code code))
    (spelled : graph.unfold depth value = .ok literal) : literal.Codeless := by
  induction literal using forall_of_parts generalizing depth value with
  | step literal ih =>
      obtain ⟨shape, parts⟩ := shape_and_parts_of_unfold spelled
      rw [codeless_iff]
      constructor
      · by_contra code
        obtain ⟨text, rfl⟩ : ∃ text, literal = .atom (.code text) := by
          unfold isCode at code
          split at code
          next text => exact ⟨text, rfl⟩
          next => exact absurd rfl code
        -- Nothing but the code itself shows itself so.
        cases value with
        | atom a =>
            cases shape
            exact plain text (.atom _)
        | _ => cases shape
      · intro child member
        obtain ⟨position, inside, rfl⟩ := List.getElem_of_mem member
        have inValue := parts.length_eq ▸ inside
        obtain ⟨inner, same⟩ := (List.forall₂_iff_get.1 parts).2 position inValue inside
        refine ih _ member (fun text held => plain text ?_) same
        cases value with
        | node h => exact .part (List.get_mem ..) held
        | _ => cases inValue

/-- A value that spells out a literal without code has none. -/
theorem not_holds_of_codeless {value : Value} {literal : Literal} (codeless : literal.Codeless)
    (spelled : graph.unfold depth value = .ok literal) (code : String) :
    ¬graph.Holds value (.code code) := by
  intro held
  generalize atom : Atom.code code = a at held
  induction held generalizing depth literal with
  | atom a =>
      subst atom
      rw [eq_of_unfold_atom spelled] at codeless
      cases (codeless_iff.1 codeless).1
  | @part h value a member held ih =>
      obtain ⟨-, parts⟩ := shape_and_parts_of_unfold spelled
      obtain ⟨position, inside, rfl⟩ := List.getElem_of_mem member
      have inLiteral := parts.length_eq ▸
        (show position < (graph.parts (.node h)).length from inside)
      obtain ⟨inner, same⟩ := (List.forall₂_iff_get.1 parts).2 position inside inLiteral
      exact ih ((codeless_iff.1 codeless).2 _ (List.get_mem ..)) same atom

/-- Every line of a value without code that is written is indented by its depth: it is made of as
many units as square brackets are open in front of it, one fewer where a closing one comes next,
and of a text that starts with neither a space nor a tab. Every line but the last ends with an
opening bracket or a comma. -/
theorem startsLine_dump {layout : Layout} {value : Value} {text : List Char}
    (blank : layout.unit.all isPad = true) (plain : ∀ code, ¬graph.Holds value (.code code))
    (dumped : graph.dump layout value = .ok text) {front back : List (List Char)}
    {line : List Char} (split : lines text = front ++ line :: back) :
    Brackets.square.StartsLine layout.unit
        (Brackets.square.openBehind (front.flatMap (· ++ ['\n']))) line ∧
      (back ≠ [] → ∃ init c, line = init ++ [c] ∧ (c = '[' ∨ c = ',')) := by
  obtain ⟨literal, spelled, rfl⟩ := exists_of_dump dumped
  have laidOut : LaidOut .square layout.unit id 0 (literal.textAt layout 0) :=
    laidOut_textAt blank (codeless_of_unfold plain spelled) fun i => rfl
  have starts := laidOut.indents.startsLine blank split fun _ => by
    obtain ⟨c, rest, same, ink, inline⟩ := laidOut.starts
    exact ⟨c, rest, ink, inline, by rw [same, id_eq, Nat.zero_sub]; rfl⟩
  refine ⟨starts, laidOut.breaksOff.ends_line split ?_⟩
  obtain ⟨c, rest, -, -, same⟩ := starts
  simp [same]

/-- A dictionary with brackets in a key and in the items of a list. -/
def bracketed : Graph :=
  ⟨#[.list [.text "a]", .text "[b"], .dict [(.text "k[", .node ⟨0⟩), (.bool true, .null)]]⟩

/-- The third line of the dictionary, where lines of 12 characters are too long, is the first item
of the list: it stands in two brackets. -/
theorem startsLine_bracketed :
    bracketed.dump ⟨"  ", 12⟩ (.node ⟨1⟩) =
        .ok "[\n  'k[' => [\n    'a]',\n    '[b',\n  ],\n  true => null,\n]".toList ∧
      Brackets.square.StartsLine [' ', ' '] 2 "    'a]',".toList ∧
        ∃ init c, "    'a]',".toList = init ++ [c] ∧ (c = '[' ∨ c = ',') := by
  have blank : (⟨"  ", 12⟩ : Layout).unit.all isPad = true := by decide
  have spelled : bracketed.unfold Literal.maxNesting (.node ⟨1⟩) =
      .ok (.dict [(.atom (.word (.text "k[")),
        .list [.atom (.word (.text "a]")), .atom (.word (.text "[b"))]),
        (.atom (.bool true), .atom .null)]) := by
    with_unfolding_all rfl
  have plain := not_holds_of_codeless (by decide) spelled
  have dumped : bracketed.dump ⟨"  ", 12⟩ (.node ⟨1⟩) =
      .ok "[\n  'k[' => [\n    'a]',\n    '[b',\n  ],\n  true => null,\n]".toList := by
    with_unfolding_all rfl
  obtain ⟨starts, ends⟩ := startsLine_dump blank plain dumped
    (show lines _ = ["[".toList, "  'k[' => [".toList] ++ "    'a]',".toList ::
      ["    '[b',".toList, "  ],".toList, "  true => null,".toList, "]".toList] by decide +kernel)
  exact ⟨dumped, starts, ends (by decide)⟩

end PhpDecl.Graph
