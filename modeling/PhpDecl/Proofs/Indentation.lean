import Mathlib.Data.List.Forall2
import PhpDecl.Proofs.Settle

/-!
# Indentation

Indenting twice is indenting by the sum of the levels, what was indented can be taken back, and a
text behind a line feed is indented by itself (`indent_composes`). All of this rests on where the
breaks are. A text has one cut into lines (`split_of_cut`), and putting a margin of spaces and tabs
in front of lines leads from the cut of a text to the cut of the indented one (`Cut.behind`): no
break is made, hidden or joined to another.
-/

namespace PhpDecl.Text

/-! ## The cut of a text -/

/-- What ends a line: one of the characters that do, or a carriage return and a line feed. -/
def IsBreak (ending : List Char) : Prop :=
  ending = ['\r', '\n'] ∨ ∃ c, isLineBreak c = true ∧ ending = [c]

/-- The lines are what a text is cut into: all but the last are ended by a break, no break stands
inside of a line, and none is cut in two. -/
inductive Cut : List Line → Prop
  | nil : Cut []
  | unended {body : List Char} (filled : body ≠ []) (inside : ∀ c ∈ body, isLineBreak c = false) :
      Cut [⟨body, []⟩]
  | ended {line : Line} {lines : List Line} (inside : ∀ c ∈ line.body, isLineBreak c = false)
      (breaks : IsBreak line.ending)
      (apart : line.ending = ['\r'] → (lines.flatMap Line.text).head? ≠ some '\n')
      (rest : Cut lines) : Cut (line :: lines)

namespace Cut

/-- A character that ends no line, in front of a cut. -/
theorem cons {c : Char} (inside : isLineBreak c = false) {line : Line} {lines : List Line}
    (cut : Cut (line :: lines)) : Cut (⟨c :: line.body, line.ending⟩ :: lines) := by
  cases cut with
  | unended filled inline =>
      exact .unended (List.cons_ne_nil _ _) (List.forall_mem_cons.2 ⟨inside, inline⟩)
  | ended inline breaks apart rest =>
      exact .ended (List.forall_mem_cons.2 ⟨inside, inline⟩) breaks apart rest

end Cut

theorem cut_split (text : List Char) : Cut (Line.split text) := by
  fun_induction Line.split text with
  | case1 => exact .nil
  | case2 rest ih =>
      exact .ended (List.forall_mem_nil _) (.inl rfl) (fun alone => by cases alone) ih
  | case3 c rest apart ends ih =>
      refine .ended (List.forall_mem_nil _) (.inr ⟨c, ends, rfl⟩) (fun alone => ?_) ih
      rw [Line.flatMap_text_split]
      cases rest with
      | nil => simp
      | cons d rest =>
          intro feed
          rw [Option.some.inj feed] at apart
          exact apart rest (List.cons.inj alone).1 rfl
  | case4 c rest _ inside none ih =>
      exact .unended (List.cons_ne_nil _ _) (by simpa using inside)
  | case5 c rest _ inside line lines some ih =>
      rw [some] at ih
      exact ih.cons (by simpa using inside)

theorem split_cons_break {c : Char} (ends : isLineBreak c = true) {rest : List Char}
    (apart : c = '\r' → rest.head? ≠ some '\n') :
    Line.split (c :: rest) = ⟨[], [c]⟩ :: Line.split rest := by
  rw [Line.split, if_pos ends]
  rintro others rfl rfl
  exact apart rfl rfl

/-- A line without breaks in front of the lines that it goes on with. -/
theorem split_inside {body : List Char} (inside : ∀ c ∈ body, isLineBreak c = false)
    {rest : List Char} {line : Line} {lines : List Line}
    (split : Line.split rest = line :: lines) :
    Line.split (body ++ rest) = ⟨body ++ line.body, line.ending⟩ :: lines := by
  induction body with
  | nil => exact split
  | cons c body ih =>
      rw [List.forall_mem_cons] at inside
      have solid : c ≠ '\r' := by
        rintro rfl
        cases inside.1
      rw [List.cons_append, Line.split, if_neg (by simp [inside.1]), ih inside.2]
      · rfl
      · exact fun _ same => absurd same solid

/-- A text has no other cut than the one that it is split into. -/
theorem split_of_cut {lines : List Line} (cut : Cut lines) :
    Line.split (lines.flatMap Line.text) = lines := by
  induction cut with
  | nil => rfl
  | @unended body filled inside =>
      obtain ⟨init, last, rfl⟩ := List.eq_nil_or_concat body |>.resolve_left filled
      rw [List.concat_eq_append] at inside ⊢
      rw [List.forall_mem_append, List.forall_mem_singleton] at inside
      have single : Line.split [last] = [⟨[last], []⟩] := by
        rw [Line.split, if_neg (by simp [inside.2]), Line.split]
        intro rest _ same
        cases same
      simpa [Line.text] using split_inside inside.1 single
  | @ended line lines inside breaks apart rest ih =>
      obtain ⟨body, ending⟩ := line
      have ending_split : Line.split (ending ++ lines.flatMap Line.text) =
          ⟨[], ending⟩ :: lines := by
        rcases breaks with rfl | ⟨c, ends, rfl⟩
        · rw [List.cons_append, List.cons_append, List.nil_append, Line.split, ih]
        · rw [List.singleton_append,
            split_cons_break ends fun same => apart (congrArg (fun c => [c]) same), ih]
      rw [List.flatMap_cons, Line.text, List.append_assoc, split_inside inside ending_split,
        List.append_nil]

/-! ## Lines behind a margin -/

namespace Line

/-- The line with a margin in front; an empty one stays as it is. -/
def behind (margin : List Char) (line : Line) : Line :=
  if line.isEmpty then line else ⟨margin ++ line.body, line.ending⟩

theorem text_behind (margin : List Char) (line : Line) :
    (line.behind margin).text = line.indented margin := by
  rw [behind, indented]
  split
  · rfl
  · rw [text, text, List.append_assoc]

@[simp] theorem ending_behind (margin : List Char) (line : Line) :
    (line.behind margin).ending = line.ending := by
  rw [behind]
  split <;> rfl

/-- A margin makes no line empty. -/
theorem isEmpty_behind (margin : List Char) (line : Line) :
    (line.behind margin).isEmpty = line.isEmpty := by
  rw [behind]
  split
  · rfl
  · next filled =>
    rw [Bool.not_eq_true] at filled
    rw [filled, isEmpty, text, List.append_assoc, List.all_append, ← text, ← isEmpty, filled,
      Bool.and_false]

/-- Margins are put in front of each other. -/
theorem behind_behind (outer margin : List Char) (line : Line) :
    (line.behind margin).behind outer = line.behind (outer ++ margin) := by
  rw [behind, isEmpty_behind, behind, behind]
  split
  · rfl
  · rw [List.append_assoc]

end Line

/-- A margin of spaces and tabs puts no line feed in front of a text. -/
theorem head?_flatMap_behind {margin : List Char} (blank : margin.all isPad = true)
    {lines : List Line} (other : (lines.flatMap Line.text).head? ≠ some '\n') :
    ((lines.map (Line.behind margin)).flatMap Line.text).head? ≠ some '\n' := by
  induction lines with
  | nil => exact other
  | cons line lines ih =>
      rw [List.map_cons, List.flatMap_cons, Line.text_behind, Line.indented]
      rw [List.flatMap_cons] at other
      cases first : line.text with
      | nil =>
          rw [first] at other
          rw [if_pos (by rw [Line.isEmpty, first, List.all_nil])]
          exact ih other
      | cons c rest =>
          rw [first] at other
          split
          · exact other
          · cases margin with
            | nil => exact other
            | cons pad margin =>
                rw [List.all_cons, Bool.and_eq_true] at blank
                intro feed
                rw [Option.some.inj feed] at blank
                exact absurd blank.1 (by decide)

/-- The lines of a cut make a cut behind a margin of spaces and tabs. -/
theorem Cut.behind {margin : List Char} (blank : margin.all isPad = true) {lines : List Line}
    (cut : Cut lines) : Cut (lines.map (Line.behind margin)) := by
  have pads : ∀ c ∈ margin, isLineBreak c = false := fun c member => by
    have pad := List.all_eq_true.1 blank c member
    rw [isPad, Bool.or_eq_true, beq_iff_eq, beq_iff_eq] at pad
    rcases pad with rfl | rfl <;> decide
  have inside {line : Line} (own : ∀ c ∈ line.body, isLineBreak c = false) :
      ∀ c ∈ (line.behind margin).body, isLineBreak c = false := by
    rw [Line.behind]
    split
    · exact own
    · exact List.forall_mem_append.2 ⟨pads, own⟩
  induction cut with
  | nil => exact .nil
  | @unended body filled inline =>
      have kept : (⟨body, []⟩ : Line).behind margin = ⟨margin ++ body, []⟩ := by
        rw [Line.behind, if_neg]
        rw [Line.isEmpty, Line.text, List.append_nil]
        intro empty
        obtain ⟨c, rest, rfl⟩ := List.exists_cons_of_ne_nil filled
        have solid := ne_feed_of_not_isLineBreak (Bool.eq_false_iff.1 (inline c (.head _)))
        simp [solid] at empty
      rw [List.map_singleton, kept]
      exact .unended (by simp [filled]) (List.forall_mem_append.2 ⟨pads, inline⟩)
  | ended inline breaks apart rest ih =>
      rw [List.map_cons]
      refine .ended (inside inline) (by simpa using breaks) (fun alone => ?_) ih
      exact head?_flatMap_behind blank (apart (by simpa using alone))

/-- The lines of an indented text are the lines of the text behind the margin. -/
theorem split_indentBy {margin : List Char} (blank : margin.all isPad = true) (text : List Char) :
    Line.split (indentBy margin text) = (Line.split text).map (Line.behind margin) := by
  have whole : indentBy margin text =
      ((Line.split text).map (Line.behind margin)).flatMap Line.text := by
    rw [indentBy, List.flatMap_map]
    exact List.flatMap_congr fun line _ => (Line.text_behind margin line).symm
  rw [whole, split_of_cut ((cut_split text).behind blank)]

/-! ## Laws of indenting -/

/-- Indenting twice puts both margins in front of each line. -/
theorem indentBy_indentBy {margin : List Char} (blank : margin.all isPad = true)
    (outer text : List Char) :
    indentBy outer (indentBy margin text) = indentBy (outer ++ margin) text := by
  rw [indentBy, split_indentBy blank, List.flatMap_map, indentBy]
  refine List.flatMap_congr fun line _ => ?_
  rw [← Line.text_behind, Line.behind_behind, Line.text_behind]

/-- Behind a line feed a text is indented by itself. -/
theorem indentBy_append {front : List Char} (ends : front.getLast? = some '\n')
    (margin text : List Char) :
    indentBy margin (front ++ text) = indentBy margin front ++ indentBy margin text := by
  obtain ⟨init, rfl⟩ := List.getLast?_eq_some_iff.1 ends
  obtain ⟨indented, same⟩ := exists_indentFrom_append margin true init '\n'
  have feed : isLineBreak '\n' = true := by decide
  rw [feed] at same
  rw [indentBy_eq_indentFrom, indentBy_eq_indentFrom, indentBy_eq_indentFrom, List.append_assoc,
    List.singleton_append, same, same [], indentFrom, List.append_assoc, List.singleton_append]

/-! ## Taking an indentation back -/

/-- The text behind copies of a unit, if it starts with as many. -/
def behindUnits? (unit : List Char) : Nat → List Char → Option (List Char)
  | 0, text => some text
  | copies + 1, text =>
      if unit <+: text then behindUnits? unit copies (text.drop unit.length) else none

/-- The line without the units of a level, which only an empty line may lack. -/
def Line.outdented? (unit : List Char) (level : Nat) (line : Line) : Option (List Char) :=
  if line.isEmpty then some line.text else behindUnits? unit level line.text

/-- Take a number of levels off every line that is not empty, if all of these have as many. -/
def outdent? (layout : Layout) (level : Nat) (text : List Char) : Option (List Char) :=
  ((Line.split text).mapM (Line.outdented? layout.unit level)).map List.flatten

theorem behindUnits?_margin (layout : Layout) (level : Nat) (text : List Char) :
    behindUnits? layout.unit level (layout.margin level ++ text) = some text := by
  induction level with
  | zero => rw [Layout.margin_zero, List.nil_append, behindUnits?]
  | succ level ih =>
      rw [Layout.margin_succ, List.append_assoc, behindUnits?, if_pos (List.prefix_append _ _),
        List.drop_left, ih]

theorem Line.outdented?_behind (layout : Layout) (level : Nat) (line : Line) :
    (line.behind (layout.margin level)).outdented? layout.unit level = some line.text := by
  rw [outdented?, isEmpty_behind, text_behind, indented]
  split
  · rfl
  · exact behindUnits?_margin layout level line.text

/-- What was indented is taken back. -/
theorem outdent?_indentBy {layout : Layout} (blank : layout.unit.all isPad = true) (level : Nat)
    (text : List Char) :
    outdent? layout level (indentBy (layout.margin level) text) = some text := by
  have each : Line.outdented? layout.unit level ∘ Line.behind (layout.margin level) =
      fun line => pure line.text := funext (Line.outdented?_behind layout level)
  rw [outdent?, split_indentBy (layout.all_margin blank level), List.mapM_map, each,
    List.mapM_pure]
  exact congrArg some ((List.flatMap_def ..).symm.trans (Line.flatMap_text_split text))

/-- Under an indentation of spaces and tabs, indenting by two levels one after the other is
indenting by their sum. An indented text has the same ends of lines in the same order, and the
empty lines of the text at their places, and none besides. Taking as many units off the other lines,
all of which start with as many, gives the text back. And a text behind one that ends in a line
feed is indented by itself. -/
theorem indent_composes {layout : Layout} (blank : layout.unit.all isPad = true)
    (text : List Char) (a b : Nat) :
    indent layout b (indent layout a text) = indent layout (a + b) text ∧
      (Line.split (indent layout a text)).map Line.ending = (Line.split text).map Line.ending ∧
      List.Forall₂ (fun line indented => indented.isEmpty = line.isEmpty ∧
          (line.isEmpty = true → indented = line))
        (Line.split text) (Line.split (indent layout a text)) ∧
      outdent? layout a (indent layout a text) = some text ∧
      ∀ front : List Char, front.getLast? = some '\n' →
        indent layout a (front ++ text) = indent layout a front ++ indent layout a text := by
  have margin := layout.all_margin blank a
  have sum : ((a : Int) + (b : Int)).toNat = b + a := by omega
  simp only [indent_eq_indentBy, Int.toNat_natCast, sum]
  refine ⟨?_, ?_, ?_, outdent?_indentBy blank a text, fun front ends => indentBy_append ends _ _⟩
  · rw [indentBy_indentBy margin, Layout.margin_add]
  · rw [split_indentBy margin, List.map_map]
    exact List.map_congr_left fun line _ => Line.ending_behind _ line
  · rw [split_indentBy margin, List.forall₂_map_right_iff, List.forall₂_same]
    intro line _
    exact ⟨Line.isEmpty_behind _ line, fun empty => if_pos empty⟩

/-- A text with breaks of four kinds, two lines that are empty, and one that is not but holds
nothing but its break. -/
def manyBreaks : List Char := "a\r\n\r\n\x0b\rb\u2028\tc".toList

theorem indent_composes_manyBreaks :
    indent ⟨" \t", 100⟩ 2 (indent ⟨" \t", 100⟩ 1 manyBreaks) =
        " \t \t \ta\r\n\r\n \t \t \t\x0b\r \t \t \tb\u2028 \t \t \t\tc".toList ∧
      outdent? ⟨" \t", 100⟩ 1 (indent ⟨" \t", 100⟩ 1 manyBreaks) = some manyBreaks ∧
      "x\n".toList.getLast? = some '\n' ∧
      indent ⟨" \t", 100⟩ 1 ("x\n".toList ++ manyBreaks) =
        indent ⟨" \t", 100⟩ 1 "x\n".toList ++ indent ⟨" \t", 100⟩ 1 manyBreaks := by
  have blank : (⟨" \t", 100⟩ : Layout).unit.all isPad = true := by decide
  obtain ⟨sum, -, -, back, behind⟩ := indent_composes blank manyBreaks 1 2
  have ends : "x\n".toList.getLast? = some '\n' := by decide
  exact ⟨sum.trans (by decide), back, ends, behind _ ends⟩

end PhpDecl.Text
