import Mathlib.Data.List.DropRight
import PhpDecl.Proofs.Decomposition
import PhpDecl.Proofs.Margins
import PhpDecl.Proofs.ParameterLists
import PhpDecl.Proofs.Stripping

/-!
# The lines of a method body

The code of a method is trimmed, indented with the method, indented again with the declaration, and
normalized as a part of it. Between the braces stand then the lines of the trimmed code, without the
blanks at their ends, each behind two units unless it is empty
(`Session.Reachable.lines_methodBody`).
-/

namespace PhpDecl

open Text

namespace Text

/-! ## Trimming -/

theorem dropEndWhile_of_all {α : Type} {p : α → Bool} {list : List α} (all : list.all p = true) :
    dropEndWhile p list = [] := by
  rw [← List.nil_append list, dropEndWhile_append_of_all [] all]
  rfl

/-- Trimming the end goes on into the first part when nothing is left of the second. -/
theorem dropEndWhile_append {α : Type} (p : α → Bool) (init rest : List α) :
    dropEndWhile p (init ++ rest) =
      if (dropEndWhile p rest).isEmpty then dropEndWhile p init
      else init ++ dropEndWhile p rest := by
  obtain ⟨⟨back, split, all⟩, last⟩ := dropEndWhile_spec p rest
  generalize dropEndWhile p rest = kept at split last
  subst split
  rcases List.eq_nil_or_concat kept with rfl | ⟨front, a, rfl⟩
  · exact dropEndWhile_append_of_all init all
  · rw [List.concat_eq_append] at last ⊢
    have stays : p a = false := last a (by simp)
    rw [if_neg (by simp), List.append_assoc, List.singleton_append, ← List.append_assoc,
      dropEndWhile_append_cons stays, dropEndWhile_of_all all, List.append_assoc]

/-- Nothing is left of blank code. -/
theorem trimStart_feed_of_blank {text : List Char} (blank : text.all isBlank = true) :
    trimStart (trimEnd text ++ ['\n']) = [] := by
  rw [trimEnd, dropEndWhile_of_all blank]
  rfl

/-- The line feed behind trimmed code is not trimmed with what stands in front of the code. -/
theorem trimStart_feed {text : List Char} (ink : text.all isBlank = false) :
    trimStart (trimEnd text ++ ['\n']) = trim text ++ ['\n'] := by
  have stripped := stripped_trim text
  have some : trim text ≠ [] := fun none => by
    rw [stripped.eq_nil_iff.1 none] at ink
    cases ink
  obtain ⟨⟨front, back, split, before, behind⟩, first, last⟩ := stripped
  generalize trim text = kept at split first last some
  subst split
  have ends : trimEnd (front ++ (kept ++ back)) = front ++ kept := by
    rcases List.eq_nil_or_concat kept with rfl | ⟨init, c, rfl⟩
    · exact absurd rfl some
    · rw [List.concat_eq_append] at last ⊢
      have stays : isBlank c = false := last c (by simp)
      rw [trimEnd, List.append_assoc, List.singleton_append, ← List.append_assoc,
        dropEndWhile_append_cons stays, dropEndWhile_of_all behind, List.append_assoc]
  rw [ends, trimStart, List.append_assoc,
    List.dropWhile_append_of_pos fun c member => List.all_eq_true.1 before c member]
  cases kept with
  | nil => exact absurd rfl some
  | cons c kept => exact List.dropWhile_cons_of_neg (by simpa using first c rfl)

/-! ## Plain lines -/

/-- A line behind a margin, unless it is empty. -/
def margined (margin line : List Char) : List Char :=
  if line.isEmpty then [] else margin ++ line

theorem margined_margined (margin line : List Char) :
    margined margin (margined margin line) = margined (margin ++ margin) line := by
  cases line with
  | nil => rfl
  | cons => simp [margined]

theorem all_margined {p : Char → Bool} {margin line : List Char} (blank : margin.all p = true)
    (all : line.all p = true) : (margined margin line).all p = true := by
  rw [margined]
  split
  · rfl
  · rw [List.all_append, blank, all, Bool.and_self]

/-- A margin is trimmed with a line of which nothing else is left. -/
theorem dropEndWhile_margined {margin : List Char} (blank : margin.all isPad = true)
    (line : List Char) :
    dropEndWhile isPad (margined margin line) = margined margin (dropEndWhile isPad line) := by
  cases line with
  | nil => rfl
  | cons c line =>
      rw [margined, if_neg (by simp), dropEndWhile_append, dropEndWhile_of_all blank]
      rfl

theorem isPlain_of_isPad {c : Char} (pad : isPad c = true) : isPlain c = true := by
  simp only [isPad, Bool.or_eq_true, beq_iff_eq] at pad
  rcases pad with rfl | rfl <;> decide

theorem interrupted_of_all_isPlain (margin : List Char) {text : List Char}
    (plain : text.all isPlain = true) : interrupted margin text = text := by
  have single : ∀ c ∈ text, (c :: if isLineBreak c then margin else []) = [c] := by
    intro c member
    have inside := List.all_eq_true.1 plain c member
    simp only [isPlain, Bool.and_eq_true, Bool.not_eq_true'] at inside
    rw [inside.2]
    rfl
  rw [interrupted, List.flatMap_def, List.map_congr_left single, ← List.flatMap_def,
    List.flatMap_singleton']

/-- A plain line gets the margin, unless it is empty, and nothing else. -/
theorem indentFrom_line (margin : List Char) {line : List Char} (plain : line.all isPlain = true)
    (rest : List Char) : indentFrom margin true (line ++ '\n' :: rest) =
      margined margin line ++ '\n' :: indentFrom margin true rest := by
  rcases List.eq_nil_or_concat line with rfl | ⟨front, last, rfl⟩
  · exact indentFrom_feed margin true rest
  · rw [List.concat_eq_append] at plain ⊢
    have inline := all_isInline_of_all_isPlain plain
    rw [List.all_append, Bool.and_eq_true] at plain inline
    have inside : isLineBreak last = false := by
      have stays : isPlain last = true := by simpa using plain.2
      simp only [isPlain, Bool.and_eq_true, Bool.not_eq_true'] at stays
      exact stays.2
    rw [List.append_assoc, List.singleton_append,
      indentFrom_inline margin true inline.1 (by simpa using inline.2), inside, indentFrom_feed,
      interrupted_of_all_isPlain margin plain.1, if_pos rfl, margined, if_neg (by simp)]
    simp

/-- A plain line is settled by itself: it loses the blanks at its end. -/
theorem settled_plainLine {margin : List Char} (blank : margin.all isPad = true) {line : List Char}
    (plain : line.all isPlain = true) (rest : List Char) :
    settled margin true (line ++ '\n' :: rest) =
      margined margin (dropEndWhile isPad line) ++ '\n' :: settled margin true rest := by
  have indented : (margined margin line).all isPlain = true :=
    all_margined (List.all_eq_true.2 fun c member =>
      isPlain_of_isPad (List.all_eq_true.1 blank c member)) plain
  have kept : (margined margin line).filter (!isStrayControl ·) = margined margin line :=
    List.filter_eq_self.2 fun c member => by
      have stays := List.all_eq_true.1 indented c member
      simp only [isPlain, Bool.and_eq_true] at stays
      exact stays.1
  rw [settled, indentFrom_line margin plain,
    settleLines_feed (all_isInline_of_all_isPlain indented), kept, dropEndWhile_margined blank]
  rfl

/-- A plain line that ends in a firm character is put behind the margin. -/
theorem settled_of_all_isPlain {margin : List Char} (blank : margin.all isPad = true)
    {front : List Char} (plain : front.all isPlain = true) {last : Char}
    (firm : isFirm last = true) (inside : isLineBreak last = false) :
    settled margin true (front ++ [last]) = margin ++ (front ++ [last]) := by
  have ended : settled margin false [] = [] := rfl
  rw [settled_inline blank (all_isInline_of_all_isPlain plain) firm inside, carried_append,
    carried_of_all_isPlain blank plain, carried_singleton firm inside, ended, if_pos rfl,
    List.append_nil]

/-- Plain lines are indented one by one. -/
theorem indentFrom_plainLines (margin : List Char) {texts : List (List Char)}
    (plain : ∀ line ∈ texts, line.all isPlain = true) :
    indentFrom margin true (texts.flatMap (· ++ ['\n'])) =
      (texts.map (margined margin)).flatMap (· ++ ['\n']) := by
  induction texts with
  | nil => rfl
  | cons line texts ih =>
      rw [List.flatMap_cons, List.append_assoc, List.singleton_append,
        indentFrom_line margin (plain line (.head _)),
        ih fun other later => plain other (.tail _ later), List.map_cons, List.flatMap_cons,
        List.append_assoc, List.singleton_append]

/-- Plain lines are settled one by one. -/
theorem settled_plainLines {margin : List Char} (blank : margin.all isPad = true)
    {texts : List (List Char)} (plain : ∀ line ∈ texts, line.all isPlain = true)
    (rest : List Char) : settled margin true (texts.flatMap (· ++ ['\n']) ++ rest) =
      (texts.map fun line => margined margin (dropEndWhile isPad line)).flatMap (· ++ ['\n']) ++
        settled margin true rest := by
  induction texts with
  | nil => rfl
  | cons line texts ih =>
      have first : line ++ ['\n'] ++ texts.flatMap (· ++ ['\n']) ++ rest =
          line ++ '\n' :: (texts.flatMap (· ++ ['\n']) ++ rest) := by simp
      rw [List.flatMap_cons, first, settled_plainLine blank (plain line (.head _)),
        ih fun other later => plain other (.tail _ later), List.map_cons, List.flatMap_cons]
      simp

/-- What stands behind a margin, without a line feed, is a line with it. -/
theorem lines_margin_append {margin : List Char} (blank : margin.all isPad = true)
    {line : List Char} (inline : line.all isInline = true) :
    lines (margin ++ line) = [margin ++ line] := by
  refine lines_of_not_mem (not_mem_of_all (p := isInline) ?_ rfl)
  rw [List.all_append, all_isInline_of_all_isPad blank, inline, Bool.and_self]

end Text

/-! ## Methods -/

/-- The only breaks of the text are line feeds, and it holds no other control characters but
tabs. -/
def Text.BrokenByFeeds (text : List Char) : Prop :=
  ∀ c ∈ text, c = '\n' ∨ c = '\t' ∨ 0x20 ≤ c.toNat ∧ c.toNat ≠ 0x7f ∧ c.toNat ≠ 0x85 ∧
    c.toNat ≠ 0x2028 ∧ c.toNat ≠ 0x2029

theorem Text.BrokenByFeeds.isPlain {text : List Char} (broken : BrokenByFeeds text) {c : Char}
    (member : c ∈ text) (solid : c ≠ '\n') : Text.isPlain c = true := by
  rcases (broken c member).resolve_left solid with rfl | number
  · decide
  · simp only [Text.isPlain, isStrayControl, isLineBreak, Bool.and_eq_true, Bool.not_eq_true',
      Bool.or_eq_false_iff, Bool.and_eq_false_iff, decide_eq_false_iff_not, beq_eq_false_iff_ne]
    omega

namespace Method

/-- The lines between the braces of a method: those of the trimmed code, without the blanks at their
ends, each behind two units unless it is empty. Blank code has no lines. -/
def bodyLines (unit body : List Char) : List (List Char) :=
  if body.all isBlank then []
  else (lines (trim body)).map fun line => margined (unit ++ unit) (dropEndWhile isPad line)

variable (shortener : Shortener) (layout : Layout) (method : Method Parameter)

/-- A method up to its opening brace, which stands on the line of parameters that were wrapped. -/
def opening : List Char :=
  method.signature shortener layout ++
    [if (method.renderParameters shortener layout).contains '\n' then ' ' else '\n', '{']

variable {shortener layout method}

theorem render_of_hasBody (body : method.hasBody = true) : method.render shortener layout =
    method.opening shortener layout ++
      '\n' :: (bodyText layout (charsOf method.body) ++ ['}']) := by
  rw [render, if_pos body, opening]
  simp

theorem sturdy_opening : Sturdy (method.opening shortener layout) where
  opens := any_head?_append_left (method.any_head?_signature shortener layout) _
  closes := any_getLast?_append _ rfl

/-- The code of a method and its closing brace, settled with the declaration. -/
theorem lines_settled_bodyText (blank : layout.unit.all isPad = true) {body : List Char}
    (written : body.all isBlank = true ∨ BrokenByFeeds body) :
    lines (settled layout.unit true (bodyText layout body ++ ['}'])) =
      bodyLines layout.unit body ++ [layout.unit ++ ['}']] := by
  have padded {list : List Char} (pad : list.all isPad = true) : list.all isPlain = true :=
    List.all_eq_true.2 fun c member => isPlain_of_isPad (List.all_eq_true.1 pad c member)
  have closing : settled layout.unit true ['}'] = layout.unit ++ ['}'] :=
    settled_of_all_isPlain blank (List.all_nil : [].all isPlain = true) (by decide) (by decide)
  have closingLine := lines_margin_append blank (by decide : ['}'].all isInline = true)
  rw [bodyText, indent_one, bodyLines]
  cases ink : body.all isBlank with
  | true =>
      rw [trimStart_feed_of_blank ink, if_pos rfl]
      exact (congrArg lines closing).trans closingLine
  | false =>
      have broken := written.resolve_left (Bool.eq_false_iff.1 ink)
      have plain : ∀ line ∈ lines (trim body), line.all isPlain = true := by
        refine fun line member => List.all_eq_true.2 fun c inside => ?_
        obtain ⟨within, solid⟩ := mem_of_mem_lines member inside
        exact broken.isPlain ((stripped_trim body).subset within) solid
      have indented : ∀ line ∈ (lines (trim body)).map (margined layout.unit),
          line.all isPlain = true := by
        intro line member
        obtain ⟨own, listed, rfl⟩ := List.mem_map.1 member
        exact all_margined (padded blank) (plain own listed)
      have twice (line : List Char) :
          margined layout.unit (dropEndWhile isPad (margined layout.unit line)) =
            margined (layout.unit ++ layout.unit) (dropEndWhile isPad line) := by
        rw [dropEndWhile_margined blank, margined_margined]
      rw [trimStart_feed ink, ← flatMap_lines, indentFrom_plainLines _ plain,
        settled_plainLines blank indented, List.map_map, closing, lines_flatMap, closingLine,
        if_neg Bool.false_ne_true]
      · simp only [Function.comp_def, twice]
      · intro line member
        obtain ⟨own, listed, rfl⟩ := List.mem_map.1 member
        have trimmed : (dropEndWhile isPad (margined layout.unit own)).all isInline = true := by
          refine List.all_eq_true.2 fun c inside => ?_
          have all := all_isInline_of_all_isPlain (all_margined (padded blank) (plain own listed))
          exact List.all_eq_true.1 all c (mem_of_mem_dropEndWhile inside)
        exact not_mem_of_all (all_margined (all_isInline_of_all_isPad blank) trimmed) rfl

/-- A method with code is written, inside of its declaration, as the lines up to its opening brace,
those of its code, and the closing brace behind one unit. -/
theorem lines_normalize_render (blank : layout.unit.all isPad = true) {body : String}
    (given : method.body = some body) (concrete : method.abstract = false)
    (written : body.toList.all isBlank = true ∨ BrokenByFeeds body.toList) :
    lines (normalize (indent layout 1 (method.render shortener layout))) =
      lines (normalize (indent layout 1 (method.opening shortener layout))) ++
        (bodyLines layout.unit body.toList ++ [layout.unit ++ ['}']]) := by
  have hasBody : method.hasBody = true := by rw [hasBody, given, concrete]; rfl
  have opens : Sturdy (method.opening shortener layout) := sturdy_opening
  have chars : charsOf method.body = body.toList := by rw [given]; rfl
  rw [(method.sturdy_render shortener layout).normalize_indent blank, opens.normalize_indent blank,
    render_of_hasBody hasBody, chars]
  have cut := opens.settled_append_feeds layout.unit true 0
    (bodyText layout body.toList ++ ['}'])
  have feed : feeds 0 = ['\n'] := rfl
  rw [feed, List.append_assoc, List.append_assoc, List.singleton_append, List.singleton_append]
    at cut
  rw [cut, lines_append_feed, lines_settled_bodyText blank written]

/-! ## The opening brace -/

/-- The opening brace of a method stands alone on its line when the parameters are on one line. When
they were wrapped it ends a line that starts with their closing parenthesis. -/
structure OpensOn (shortener : Shortener) (layout : Layout) (method : Method Parameter)
    (line : List Char) : Prop where
  alone : '\n' ∉ method.renderParameters shortener layout → line = layout.unit ++ ['{']
  shared : '\n' ∈ method.renderParameters shortener layout → ∃ front, line = front ++ [' ', '{']
  parenthesis : method.Overlong shortener layout →
    (method.returnText shortener).all isPlain = true →
      line = layout.unit ++ ')' :: (method.returnText shortener ++ [' ', '{'])

theorem feed_mem_of_overlong (long : method.Overlong shortener layout) :
    '\n' ∈ method.renderParameters shortener layout := by
  rw [renderParameters_eq, if_pos long]
  simp [Parameter.onLines]

/-- Behind parameters that were not wrapped the brace has a line of its own. -/
theorem exists_lines_alone (blank : layout.unit.all isPad = true)
    (inline : '\n' ∉ method.renderParameters shortener layout) : ∃ front,
      lines (settled layout.unit true (method.opening shortener layout)) =
        front ++ [layout.unit ++ ['{']] := by
  have apart : method.opening shortener layout =
      method.signature shortener layout ++ '\n' :: ([] ++ ['{']) := by
    rw [opening, if_neg (by simpa using inline)]
    rfl
  obtain ⟨front, settles⟩ := exists_settled_append (c := '\n') (by decide) layout.unit true
    (method.signature shortener layout)
  refine ⟨lines front, ?_⟩
  have brace : settled layout.unit true ([] ++ ['{']) = layout.unit ++ ['{'] :=
    settled_of_all_isPlain blank rfl (by decide) (by decide)
  have started : isLineBreak '\n' = true := by decide
  rw [apart, settles, started, brace, lines_append_feed,
    lines_margin_append blank (by decide : ['{'].all isInline = true)]

/-- Behind parameters that were wrapped the brace shares their last line. -/
theorem exists_lines_shared (feed : '\n' ∈ method.renderParameters shortener layout) :
    ∃ front line,
      lines (settled layout.unit true (method.opening shortener layout)) =
        front ++ [line ++ [' ', '{']] := by
  have apart : method.opening shortener layout =
      method.signature shortener layout ++ ' ' :: ['{'] := by
    rw [opening, if_pos (by simpa using feed)]
  obtain ⟨indented, indents⟩ := exists_indentFrom_append layout.unit true
    (method.signature shortener layout) ' '
  obtain ⟨unified, unifies⟩ := exists_unifyBreaks_append (c := ' ') (by decide) indented
  have brace : unifyBreaks (indentFrom layout.unit (isLineBreak ' ') ['{']) = ['{'] := by
    have inside : isLineBreak ' ' = false := by decide
    rw [inside]
    rfl
  have kept : (' ' :: ['{']).filter (!isStrayControl ·) = ' ' :: ['{'] := by decide
  obtain ⟨front, line, split⟩ := exists_lines_concat (unified.filter (!isStrayControl ·))
  have next : lines (' ' :: ['{']) = [' ' :: ['{']] := lines_of_not_mem (by decide)
  -- The blank in front of the brace is not trimmed, for the brace is the end of the line.
  have stays : dropEndWhile isPad (line ++ [' ', '{']) = line ++ [' ', '{'] :=
    (congrArg (dropEndWhile isPad) (List.append_cons line ' ' ['{'])).trans
      ((dropEndWhile_append_cons (by decide) _ []).trans (List.append_cons line ' ' ['{']).symm)
  refine ⟨front.map (dropEndWhile isPad), line, ?_⟩
  rw [apart, settled, indents, settleLines, unifies, brace, List.filter_append, kept,
    lines_trimLineEnds, lines_append split next, List.map_append, List.map_singleton, stays]

/-- Behind a list that was wrapped the closing parenthesis starts the line of the brace. -/
theorem exists_lines_parenthesis (blank : layout.unit.all isPad = true)
    (long : method.Overlong shortener layout)
    (plain : (method.returnText shortener).all isPlain = true) : ∃ front,
      lines (settled layout.unit true (method.opening shortener layout)) =
        front ++ [layout.unit ++ ')' :: (method.returnText shortener ++ [' ', '{'])] := by
  obtain ⟨lead, signed⟩ : ∃ lead, method.signature shortener layout =
      lead ++ method.renderParameters shortener layout ++ method.returnText shortener := ⟨_, rfl⟩
  obtain ⟨list, closes⟩ : ∃ list, method.renderParameters shortener layout =
      list ++ '\n' :: [')'] := ⟨_, by rw [renderParameters_eq, if_pos long]; rfl⟩
  have apart : method.opening shortener layout =
      (lead ++ list) ++ '\n' :: ((')' :: method.returnText shortener ++ [' ']) ++ ['{']) := by
    rw [opening, if_pos (by simpa using feed_mem_of_overlong long), signed, closes]
    simp
  obtain ⟨front, settles⟩ := exists_settled_append (c := '\n') (by decide) layout.unit true
    (lead ++ list)
  have shared : (')' :: method.returnText shortener ++ [' ']).all isPlain = true := by
    rw [List.all_append, List.all_cons, plain]
    decide
  have started : isLineBreak '\n' = true := by decide
  refine ⟨lines front, ?_⟩
  rw [apart, settles, started, settled_of_all_isPlain blank shared (by decide) (by decide),
    lines_append_feed, lines_margin_append blank]
  · simp
  · rw [List.all_append, all_isInline_of_all_isPlain shared]
    rfl

/-- The line of the opening brace is the last one up to it. -/
theorem exists_opensOn (blank : layout.unit.all isPad = true) : ∃ front line,
    lines (normalize (indent layout 1 (method.opening shortener layout))) = front ++ [line] ∧
      method.OpensOn shortener layout line := by
  rw [sturdy_opening.normalize_indent blank]
  by_cases feed : '\n' ∈ method.renderParameters shortener layout
  · obtain ⟨front, line, split⟩ := exists_lines_shared feed
    refine ⟨front, _, split, absurd feed, fun _ => ⟨line, rfl⟩, fun long plain => ?_⟩
    obtain ⟨before, same⟩ := exists_lines_parenthesis blank long plain
    exact List.singleton_inj.1 (List.append_inj' (split.symm.trans same) rfl).2
  · obtain ⟨front, split⟩ := exists_lines_alone blank feed
    exact ⟨front, _, split, fun _ => rfl, (absurd · feed),
      fun long => absurd (feed_mem_of_overlong long) feed⟩

end Method

/-! ## Declarations -/

theorem exists_feeds (blanks : Nat) : ∃ rest, feeds blanks = '\n' :: rest :=
  ⟨_, List.replicate_succ⟩

/-- A member that is laid out stands on lines of its own, behind those that are laid out without
what follows it. -/
theorem exists_laidOut (front back : List (MemberGroup × List Char)) (group : MemberGroup)
    (text : List Char) : ∃ lead rest, EndsLine lead ∧
      laidOut (front ++ (group, text) :: back) = lead ++ (text ++ '\n' :: rest) ∧
      laidOut (front ++ [(group, text)]) = lead ++ (text ++ ['\n']) := by
  induction front with
  | nil =>
      cases back with
      | nil => exact ⟨[], [], .inl rfl, rfl, rfl⟩
      | cons piece back =>
          obtain ⟨more, behind⟩ := exists_feeds (group.blanksBefore piece.1)
          refine ⟨[], more ++ laidOut (piece :: back), .inl rfl, ?_, rfl⟩
          rw [List.nil_append, laidOut, behind]
          simp
  | cons first front ih =>
      obtain ⟨lead, rest, ends, all, part⟩ := ih
      -- What comes behind the first member is not empty, and starts with the same one in both.
      obtain ⟨next, others, starts, also⟩ : ∃ next others,
          front ++ (group, text) :: back = next :: others ∧
            ∃ more, front ++ [(group, text)] = next :: more := by
        cases front with
        | nil => exact ⟨_, _, rfl, _, rfl⟩
        | cons next front => exact ⟨next, _, rfl, _, rfl⟩
      obtain ⟨more, starts'⟩ := also
      have ended : EndsLine (first.2 ++ feeds (first.1.blanksBefore next.1)) :=
        (separates_replicate _).endsLine _
      refine ⟨_, rest, ended.append ends, ?_, ?_⟩
      · rw [starts] at all
        rw [List.cons_append, starts, laidOut, all, List.append_assoc _ lead]
      · rw [starts'] at part
        rw [List.cons_append, starts', laidOut, part, List.append_assoc _ lead]

namespace Declaration

variable {d : PlainDeclaration} {method : Method Parameter}
  {earlier later : List (Method Parameter)}

/-- A method is a member of its declaration, with the later methods behind it. -/
theorem exists_fragments (stored : d.methods.values = earlier ++ method :: later)
    (shortener : Shortener) (layout : Layout) : ∃ before behind,
      d.fragments shortener layout =
        before ++ (.methods, method.render shortener layout) :: behind ∧
      behind.length = later.length := by
  refine ⟨pieces ((d.fragmentGroups shortener layout).take 3) ++
      (earlier.map (Method.render shortener layout)).map (.methods, ·),
    (later.map (Method.render shortener layout)).map (.methods, ·), ?_, by simp⟩
  simp [fragments, fragmentGroups, pieces, stored]

/-- A declaration holds the text of a method, indented and normalized, on lines of its own, behind
its head and the members in front of the method. -/
theorem exists_render_body (stored : d.methods.values = earlier ++ method :: later)
    (shortener : Shortener) {layout : Layout} (blank : layout.unit.all isPad = true) :
    ∃ lead rest, d.render shortener layout =
        lead ++ '\n' ::
          (normalize (indent layout 1 (method.render shortener layout)) ++ '\n' :: rest) ∧
      lead ++ '\n' :: (normalize (indent layout 1 (method.render shortener layout)) ++ ['\n']) =
        normalize (d.commentText ++ d.header shortener) ++ '\n' ::
          laidOut (((d.fragments shortener layout).rdrop later.length).map fun piece =>
            (piece.1, normalize (indent layout 1 piece.2))) := by
  obtain ⟨before, behind, split, length⟩ := exists_fragments stored shortener layout
  have upTo : (d.fragments shortener layout).rdrop later.length =
      before ++ [(.methods, method.render shortener layout)] := by
    rw [split, ← length, List.append_cons, List.rdrop_append_length]
  obtain ⟨lead, rest, ends, all, part⟩ := exists_laidOut
    (before.map fun piece => (piece.1, normalize (indent layout 1 piece.2)))
    (behind.map fun piece => (piece.1, normalize (indent layout 1 piece.2))) .methods
    (normalize (indent layout 1 (method.render shortener layout)))
  -- The head ends in a line feed, or the last member in front of the method does.
  obtain ⟨front, feed⟩ : ∃ front, '\n' :: lead = front ++ ['\n'] := by
    rcases ends with rfl | ⟨front, rfl⟩
    · exact ⟨[], rfl⟩
    · exact ⟨'\n' :: front, rfl⟩
  have behindHead (text : List Char) : '\n' :: (lead ++ text) = front ++ '\n' :: text := by
    rw [← List.cons_append, feed, List.append_assoc, List.singleton_append]
  refine ⟨normalize (d.commentText ++ d.header shortener) ++ front,
    rest ++ ['}'] ++ (if d.name.isSome then ['\n'] else []), ?_, ?_⟩
  · rw [render_eq_composed _ _ _ blank, composed, split, List.map_append, List.map_cons, all,
      List.append_assoc _ ['\n'], List.singleton_append, behindHead]
    simp
  · rw [upTo, List.map_append, List.map_singleton, part, behindHead, List.append_assoc]

end Declaration

namespace Session

/-- The code of a method survives the writing of its declaration. In every session that can be
reached, the text of a method with code stands on lines of its own behind the head and the members
in front of it, and its lines are those up to the opening brace, which stands alone or behind the
closing parenthesis of a wrapped list, the lines of the trimmed code without the blanks at their
ends and each behind two units unless it is empty, and the closing brace behind one unit. Blank code
leaves nothing between the braces. -/
theorem Reachable.lines_methodBody {session : Session} (reachable : session.Reachable)
    (h : Handle .classType) (shortener : Option Shortener) {layout : Layout}
    (blank : layout.unit.all isPad = true) {earlier later : List (Method Parameter)}
    {method : Method Parameter}
    (stored : (session.store.plain h).methods.values = earlier ++ method :: later)
    {body : String} (given : method.body = some body) (concrete : method.abstract = false)
    (written : body.toList.all isBlank = true ∨ BrokenByFeeds body.toList) :
    ∃ used lead rest front line,
      used = shortener.getD (session.store.ownShortener h) ∧
      (Op.renderWith (.classType h) shortener layout).run session.store =
        .ok (.text (String.ofList (lead ++ '\n' ::
          (normalize (indent layout 1 (method.render used layout)) ++ '\n' :: rest))))
          session.store ∧
      lead ++ '\n' :: (normalize (indent layout 1 (method.render used layout)) ++ ['\n']) =
        normalize ((session.store.plain h).commentText ++ (session.store.plain h).header used) ++
          '\n' :: laidOut
            ((((session.store.plain h).fragments used layout).rdrop later.length).map fun piece =>
              (piece.1, normalize (indent layout 1 piece.2))) ∧
      lines (normalize (indent layout 1 (method.render used layout))) =
        front ++ line ::
          (Method.bodyLines layout.unit body.toList ++ [layout.unit ++ ['}']]) ∧
      lines (normalize (indent layout 1 (method.opening used layout))) = front ++ [line] ∧
      method.OpensOn used layout line := by
  obtain ⟨used, chosen⟩ : ∃ used, used = shortener.getD (session.store.ownShortener h) := ⟨_, rfl⟩
  obtain ⟨lead, rest, text, position⟩ := Declaration.exists_render_body stored used blank
  obtain ⟨front, line, opens, on⟩ : ∃ front line,
      lines (normalize (indent layout 1 (method.opening used layout))) = front ++ [line] ∧
        method.OpensOn used layout line := Method.exists_opensOn blank
  refine ⟨used, lead, rest, front, line, chosen, ?_, position, ?_, opens, on⟩
  · obtain ⟨comment, read⟩ := Op.exists_classComment reachable.commented h
    rw [Op.run_renderWith_of_ok read, Store.renderClass, ← chosen, text]
  · rw [Method.lines_normalize_render blank given concrete written, opens, List.append_assoc]
    rfl

/-- A session with a class whose second method has two parameters, and code with lines of blanks. -/
def paged : Session :=
  start.after
    [⟨.newClass (.atom (.word (.text "Page"))) none, some "page", .prompt⟩,
      ⟨.ask "page" (some .addMethod) [.atom (.word (.text "load"))], none, .prompt⟩,
      ⟨.ask "page" (some .addMethod) [.atom (.word (.text "show"))], some "show", .prompt⟩,
      ⟨.ask "show" (some .addParameter) [.atom (.word (.text "head"))], none, .prompt⟩,
      ⟨.ask "show" (some .addParameter) [.atom (.word (.text "foot"))], none, .prompt⟩,
      ⟨.ask "show" (some .setBody) [.atom (.word (.text "\n  a();  \n \t\n\n\tb();\t\n\n"))],
        none, .prompt⟩]

/-- Two spaces a level, and lines of up to ten characters. -/
def narrow : Layout := ⟨"  ", 10⟩

theorem lines_methodBody_paged : ∃ own lead rest front,
    (Op.renderWith (.classType ⟨0⟩) none narrow).run paged.store =
      .ok (.text (String.ofList (lead ++ '\n' :: (own ++ '\n' :: rest)))) paged.store ∧
    lines own = front ++ "  ) \x7b".toList ::
      ["    a();".toList, [], [], "    \tb();".toList, "  \x7d".toList] := by
  have reachable : paged.Reachable := Reachable.start.after (by decide)
  have blank : narrow.unit.all isPad = true := by decide
  have stored : (paged.store.plain ⟨0⟩).methods.values =
      [paged.store.plainMethod ⟨0⟩] ++ paged.store.plainMethod ⟨1⟩ :: [] := by
    with_unfolding_all rfl
  have given : (paged.store.plainMethod ⟨1⟩).body =
      some "\n  a();  \n \t\n\n\tb();\t\n\n" := by
    with_unfolding_all rfl
  have concrete : (paged.store.plainMethod ⟨1⟩).abstract = false := by with_unfolding_all rfl
  have broken : BrokenByFeeds "\n  a();  \n \t\n\n\tb();\t\n\n".toList := by
    simp [BrokenByFeeds]
  have code : Method.bodyLines narrow.unit "\n  a();  \n \t\n\n\tb();\t\n\n".toList =
      ["    a();".toList, [], [], "    \tb();".toList] := by
    rfl
  obtain ⟨used, lead, rest, front, line, -, run, -, split, -, on⟩ :=
    reachable.lines_methodBody ⟨0⟩ none blank stored given concrete (.inr broken)
  have long : (paged.store.plainMethod ⟨1⟩).Overlong used narrow := by
    have texts : (paged.store.plainMethod ⟨1⟩).parameterTexts used narrow =
        ["$head".toList, "$foot".toList] := by with_unfolding_all rfl
    rw [Method.Overlong, texts]
    decide
  have untyped : (paged.store.plainMethod ⟨1⟩).returnText used = [] := by with_unfolding_all rfl
  have brace := on.parenthesis long (by rw [untyped]; rfl)
  rw [untyped] at brace
  refine ⟨_, lead, rest, front, run, ?_⟩
  rw [split, brace, code]
  rfl

end Session

end PhpDecl
