import PhpDecl.Proofs.Lines
import PhpDecl.Proofs.Placement
import PhpDecl.Proofs.Rendering

/-!
# The margin of a body

Indenting looks for eleven kinds of line break, normalizing leaves line feeds only. Still every
line of a body that comes out of both is empty or stands behind the margin
(`led_lines_settled`), whatever the text of the body is: every line feed that is left was a break
for indenting too. So nothing that is written in a body leaves it.
-/

namespace PhpDecl.Text

/-! ## Normalizing line by line -/

/-- Taking characters out leaves the lines apart as long as line feeds stay. -/
theorem lines_filter {p : Char → Bool} (stays : p '\n' = true) (text : List Char) :
    lines (text.filter p) = (lines text).map (List.filter p) := by
  induction text with
  | nil => rfl
  | cons c text ih =>
      by_cases feed : c = '\n'
      · subst feed
        rw [List.filter_cons_of_pos stays, lines_feed, lines_feed, ih]
        rfl
      · obtain ⟨first, others, same⟩ := exists_lines text
        rw [lines_cons feed, same, List.filter_cons]
        split
        next kept =>
          rw [lines_cons feed, ih, same]
          simp [kept]
        next dropped =>
          rw [ih, same]
          simp [dropped]

/-- The ends of lines are trimmed line by line. -/
theorem lines_trimLineEnds (text : List Char) :
    lines (trimLineEnds text) = (lines text).map (dropEndWhile isPad) := by
  induction text with
  | nil => rfl
  | cons c text ih =>
      by_cases feed : c = '\n'
      · subst feed
        rw [trimLineEnds, show isPad '\n' = false from rfl, Bool.false_and,
          if_neg Bool.false_ne_true, lines_feed, lines_feed, ih]
        rfl
      · obtain ⟨first, others, same⟩ := exists_lines text
        rw [same, List.map_cons] at ih
        -- The rest of the line is trimmed to nothing just when a break comes next.
        have next : ((trimLineEnds text).isEmpty || (trimLineEnds text).head? == some '\n') =
            (dropEndWhile isPad first).isEmpty := by
          cases kept : trimLineEnds text with
          | nil =>
              rw [kept, lines_nil] at ih
              rw [← (List.cons.inj ih).1]
              rfl
          | cons d rest =>
              by_cases feed' : d = '\n'
              · subst feed'
                rw [kept, lines_feed] at ih
                rw [← (List.cons.inj ih).1]
                rfl
              · obtain ⟨second, more, lined⟩ := exists_lines rest
                rw [kept, lines_cons feed', lined] at ih
                rw [← (List.cons.inj ih).1]
                simp [feed']
        rw [lines_cons feed, same, trimLineEnds]
        simp only [next, List.modifyHead_cons, List.map_cons, dropEndWhile]
        cases trimmed : dropEndWhile isPad first with
        | nil =>
            rw [trimmed] at ih
            cases pad : isPad c
            · simp [lines_cons feed, ih]
            · simp [ih]
        | cons d rest =>
            rw [trimmed] at ih
            simp [lines_cons feed, ih]

/-! ## Behind the margin -/

/-- The line is empty or starts with the margin. -/
def Led (margin line : List Char) : Prop := line = [] ∨ margin <+: line

namespace Led

variable {margin line : List Char}

/-- A margin of spaces and tabs is no stray control. -/
theorem filter (blank : margin.all isPad = true) (led : Led margin line) :
    Led margin (line.filter (!isStrayControl ·)) := by
  rcases led with rfl | ⟨rest, rfl⟩
  · exact .inl rfl
  · rw [List.filter_append, filter_of_all_isPad blank]
    exact .inr (List.prefix_append _ _)

/-- A line that is trimmed keeps its margin, or nothing. -/
theorem trim (blank : margin.all isPad = true) (led : Led margin line) :
    Led margin (dropEndWhile isPad line) := by
  rcases led with rfl | ⟨rest, rfl⟩
  · exact .inl rfl
  · by_cases blanks : rest.all isPad = true
    · left
      rw [← List.nil_append (margin ++ rest), dropEndWhile_append_of_all [] ?_]
      · rfl
      · rw [List.all_append, blank, blanks, Bool.and_self]
    · -- Trimming stops inside the rest at the latest.
      obtain ⟨c, member, ink⟩ : ∃ c ∈ rest, isPad c = false := by
        simpa using blanks
      obtain ⟨front, back, rfl⟩ := List.append_of_mem member
      rw [← List.append_assoc, dropEndWhile_append_cons ink, List.append_assoc]
      exact .inr (List.prefix_append _ _)

end Led

/-- Line feeds and carriage returns get no margin, and start a line. -/
theorem indentFrom_of_break {c : Char} (broken : c = '\r' ∨ c = '\n') (margin : List Char)
    (start : Bool) (rest : List Char) :
    indentFrom margin start (c :: rest) = c :: indentFrom margin true rest := by
  have ends : isLineBreak c = true := by
    rcases broken with rfl | rfl <;> decide
  rw [indentFrom, ends]
  rcases broken with rfl | rfl <;> simp

/-- An indented text starts with a line feed only if the text does. -/
theorem exists_feed_of_indentFrom {margin : List Char} (blank : margin.all isPad = true)
    {start : Bool} {text others : List Char}
    (opens : indentFrom margin start text = '\n' :: others) : ∃ rest, text = '\n' :: rest := by
  cases text with
  | nil => cases opens
  | cons c rest =>
      rw [indentFrom] at opens
      split at opens
      next outside =>
        cases margin with
        | nil => exact ⟨rest, by rw [(List.cons.inj opens).1]⟩
        | cons pad margin =>
            rw [List.all_cons, (List.cons.inj opens).1] at blank
            cases blank
      next => exact ⟨rest, by rw [(List.cons.inj opens).1]⟩

/-- Every line feed that is left of an indented text was a break for indenting: the lines behind
the first one are led by the margin, and so is the first one of a text that starts a line. -/
theorem led_lines_indentFrom {margin : List Char} (blank : margin.all isPad = true) (start : Bool)
    (text : List Char) : ∃ first others,
      lines (unifyBreaks (indentFrom margin start text)) = first :: others ∧
        (start = true → Led margin first) ∧ ∀ line ∈ others, Led margin line := by
  -- Behind a break everything is led, the first line included.
  have behind {rest : List Char} (led : ∃ first others,
      lines (unifyBreaks (indentFrom margin true rest)) = first :: others ∧
        (true = true → Led margin first) ∧ ∀ line ∈ others, Led margin line) :
      ∀ line ∈ lines (unifyBreaks (indentFrom margin true rest)), Led margin line := by
    obtain ⟨first, others, same, opens, more⟩ := led
    rw [same]
    exact List.forall_mem_cons.2 ⟨opens rfl, more⟩
  fun_induction unifyBreaks text generalizing start with
  | case1 => exact ⟨[], [], rfl, fun _ => .inl rfl, by simp⟩
  | case2 rest ih =>
      rw [indentFrom_of_break (.inl rfl), indentFrom_of_break (.inr rfl), unifyBreaks, lines_feed]
      exact ⟨[], _, rfl, fun _ => .inl rfl, behind (ih true)⟩
  | case3 c rest apart ih =>
      by_cases broken : c = '\r' ∨ c = '\n'
      · have unifies : unifyBreaks (c :: indentFrom margin true rest) =
            '\n' :: unifyBreaks (indentFrom margin true rest) := by
          rw [unifyBreaks_cons fun others alone same => by
            obtain ⟨more, rfl⟩ := exists_feed_of_indentFrom blank same
            exact apart more alone rfl]
          rcases broken with rfl | rfl <;> rfl
        rw [indentFrom_of_break broken, unifies, lines_feed]
        exact ⟨[], _, rfl, fun _ => .inl rfl, behind (ih true)⟩
      · obtain ⟨first, others, same, _, led⟩ := ih (isLineBreak c)
        obtain ⟨noReturn, noFeed⟩ := not_or.1 broken
        have outside : (if start && !(c == '\r' || c == '\n') then margin else []) =
            if start then margin else [] := by
          simp [noReturn, noFeed]
        have inline : ((if start then margin else []) ++ [c]).all isInline = true := by
          rw [List.all_append, Bool.and_eq_true]
          refine ⟨?_, by simp [isInline, noReturn, noFeed]⟩
          split
          · exact all_isInline_of_all_isPad blank
          · rfl
        rw [indentFrom, outside, List.append_cons, unifyBreaks_inline inline,
          lines_inline_append inline, same]
        refine ⟨_, others, rfl, ?_, led⟩
        rintro rfl
        exact .inr ((List.prefix_append _ _).trans (List.prefix_append _ _))

/-- Every line of a text that was indented and normalized is empty or starts with the margin. -/
theorem led_lines_settled {margin : List Char} (blank : margin.all isPad = true)
    (text : List Char) : ∀ line ∈ lines (settled margin true text), Led margin line := by
  obtain ⟨first, others, same, opens, more⟩ := led_lines_indentFrom blank true text
  rw [settled, settleLines, lines_trimLineEnds, lines_filter (by decide), same]
  intro line member
  obtain ⟨filtered, inside, rfl⟩ := List.mem_map.1 member
  obtain ⟨raw, within, rfl⟩ := List.mem_map.1 inside
  rcases List.mem_cons.1 within with rfl | later
  · exact ((opens rfl).filter blank).trim blank
  · exact ((more raw later).filter blank).trim blank

/-- The line starts in the first column: it holds a character, and no space or tab comes first. -/
def startsOutside (line : List Char) : Bool := line.head?.any (!isPad ·)

/-- A line behind a margin does not start in the first column. -/
theorem Led.not_startsOutside {margin line : List Char} (blank : margin.all isPad = true)
    (indents : margin ≠ []) (led : Led margin line) : startsOutside line = false := by
  rcases led with rfl | ⟨rest, rfl⟩
  · rfl
  · cases margin with
    | nil => exact absurd rfl indents
    | cons pad margin =>
        rw [List.all_cons, Bool.and_eq_true] at blank
        simp [startsOutside, blank.1]

end PhpDecl.Text

namespace PhpDecl

open Text

namespace Declaration

variable (d : PlainDeclaration) (shortener : Shortener) (layout : Layout)

/-- The comment and the head end at the opening brace. -/
theorem exists_normalize_header :
    ∃ opening, normalize (d.commentText ++ d.header shortener) = opening ++ ['{'] := by
  obtain ⟨head, header⟩ : ∃ head, d.header shortener = head ++ ['{', '\n'] := ⟨_, rfl⟩
  obtain ⟨front, opens⟩ := exists_settleLines_append (c := '{') (by decide) (d.commentText ++ head)
  have feed : settleLines ['\n'] = ['\n'] := by decide
  rw [normalize_eq, header, ← List.append_assoc, opens, feed,
    trimBreaks_append_cons (by decide : '{' ≠ '\n')]
  exact ⟨_, rfl⟩

end Declaration

/-- The lines between the braces of a declaration stay inside: all of them are ended, those that
are not empty stand behind the margin, and of what comes behind the opening brace the closing
brace is the only line that starts in the first column. -/
structure Encloses (margin inner closing : List Char) : Prop where
  ended : EndsLine inner
  led : ∀ line ∈ lines inner, line = [] ∨ margin <+: line
  outermost : (lines (inner ++ '}' :: closing)).filter startsOutside = [['}']]

/-- Led lines in front of the closing brace are enclosed, with at most a line feed behind it. -/
theorem encloses_of_led {margin inner : List Char} (blank : margin.all isPad = true)
    (indents : margin ≠ []) (ended : EndsLine inner) (led : ∀ line ∈ lines inner, Led margin line)
    (named : Bool) : Encloses margin inner (if named then ['\n'] else []) where
  ended := ended
  led := led
  outermost := by
    have closing : (lines ('}' :: if named then ['\n'] else [])).filter startsOutside =
        [['}']] := by
      cases named <;> decide
    rcases ended with rfl | ⟨front, rfl⟩
    · exact closing
    · have inside : (lines front).filter startsOutside = [] := by
        refine List.filter_eq_nil_iff.2 fun line member => Bool.eq_false_iff.1 ?_
        refine (led line ?_).not_startsOutside blank indents
        rw [lines_append_feed]
        exact List.mem_append_left _ member
      rw [List.append_assoc, List.singleton_append, lines_append_feed, List.filter_append, inside,
        closing, List.nil_append]

/-- Lines that are ended stay so. -/
theorem EndsLine.settled {text : List Char} (ends : EndsLine text) (margin : List Char) :
    EndsLine (settled margin true text) := by
  rcases ends with rfl | ⟨front, rfl⟩
  · exact .inl rfl
  · obtain ⟨kept, settles⟩ := exists_settled_append (c := '\n') (by decide) margin true front
    exact .inr ⟨kept, settles []⟩

/-- A declaration encloses its body. -/
theorem Declaration.exists_render_encloses (d : PlainDeclaration) (shortener : Shortener)
    {layout : Layout} (blank : layout.unit.all isPad = true) (indents : layout.unit ≠ []) :
    ∃ head inner closing,
      head ++ ['{'] = normalize (d.commentText ++ d.header shortener) ∧
      closing = (if d.name.isSome then ['\n'] else []) ∧
      Encloses layout.unit inner closing ∧
      d.render shortener layout = head ++ '{' :: '\n' :: (inner ++ '}' :: closing) := by
  obtain ⟨head, opens⟩ := d.exists_normalize_header shortener
  have ended := (d.endsLine_body shortener layout).settled layout.unit
  refine ⟨head, _, _, opens.symm, rfl,
    encloses_of_led blank indents ended (led_lines_settled blank _) _, ?_⟩
  rw [render_eq, opens, List.append_assoc]
  rfl

namespace Session

/-- What is written in a declaration does not leave its body: whenever a declaration is written,
with a shortener or without, its text is its comment and head up to the opening brace, lines that
stay behind the margin, and the closing brace. In every session that can be reached it is
written. -/
theorem encloses_renderWith (session : Session) (h : Handle .classType)
    (shortener : Option Shortener) {layout : Layout} (blank : layout.unit.all isPad = true)
    (indents : layout.unit ≠ []) :
    ∃ head inner closing,
      head ++ ['{'] = normalize ((session.store.plain h).commentText ++
        (session.store.plain h).header (shortener.getD (session.store.ownShortener h))) ∧
      closing = (if (session.store.plain h).name.isSome then ['\n'] else []) ∧
      Encloses layout.unit inner closing ∧
      (∀ {answer after},
        (Op.renderWith (.classType h) shortener layout).run session.store = .ok answer after →
          answer = .text (String.ofList (head ++ '{' :: '\n' :: (inner ++ '}' :: closing)))) ∧
      (session.Reachable → ∃ answer after,
        (Op.renderWith (.classType h) shortener layout).run session.store = .ok answer after) := by
  obtain ⟨head, inner, closing, opens, named, encloses, rendered⟩ :=
    (session.store.plain h).exists_render_encloses
      (shortener.getD (session.store.ownShortener h)) blank indents
  refine ⟨head, inner, closing, opens, named, encloses, ?_, ?_⟩
  · intro answer after run
    -- A comment that cannot be read leaves nothing to be written.
    cases read : session.store.classComment h with
    | ok comment =>
        rw [Op.run_renderWith_of_ok read] at run
        cases run
        rw [← rendered]
        rfl
    | error fault =>
        rw [Op.run_renderWith_of_error read] at run
        cases run
  · intro reachable
    have written : (Value.classType h).IsWritten := trivial
    obtain ⟨text, answer⟩ := Op.answers_renderWith reachable.commented written shortener layout
    exact ⟨_, _, answer⟩

/-- A session with a class whose only method has braces behind breaks of many kinds. -/
def braced : Session :=
  start.after
    [⟨.newClass (.atom (.word (.text "Page"))) none, some "page", .prompt⟩,
      ⟨.ask "page" (some .addMethod) [.atom (.word (.text "show"))], some "show", .prompt⟩,
      ⟨.ask "show" (some .setBody) [.atom (.word (.text
        "a();\r\x7d\u2028\x7d\x0b\x7d\r\n\x7d \n\x00 \n\x7d"))], none, .prompt⟩]

/-- The text of the class: line feeds are followed by both margins or by a line feed. -/
def bracedText : String :=
  "class Page\n\x7b\n\tpublic function show()\n\t\x7b\n" ++
    "\t\ta();\n\t\t\x7d\u2028\t\t\x7d\t\t\x7d\n\t\t\x7d\n\n\t\t\x7d\n\t\x7d\n\x7d\n"

theorem encloses_braced : ∃ head inner closing,
    head ++ ['{'] = "class Page\n\x7b".toList ∧ Encloses ['\t'] inner closing ∧
      bracedText = String.ofList (head ++ '{' :: '\n' :: (inner ++ '}' :: closing)) := by
  have reachable : braced.Reachable := Reachable.start.after (by decide)
  have blank : Layout.standard.unit.all isPad = true := by decide
  have indents : Layout.standard.unit ≠ [] := by decide
  have readable : braced.store.classComment ⟨0⟩ = .ok "" := by with_unfolding_all rfl
  have opening : normalize ((braced.store.plain ⟨0⟩).commentText ++ (braced.store.plain ⟨0⟩).header
      ((none : Option Shortener).getD (braced.store.ownShortener ⟨0⟩))) =
        "class Page\n\x7b".toList := by
    decide +kernel
  have text : braced.store.renderClass ⟨0⟩ none .standard = bracedText.toList := by
    decide +kernel
  have answer : (Op.renderWith (.classType ⟨0⟩) none .standard).run braced.store =
      .ok (.text bracedText) braced.store := by
    rw [Op.run_renderWith_of_ok readable, text, String.ofList_toList]
  obtain ⟨head, inner, closing, opens, -, encloses, written, -⟩ :=
    encloses_renderWith braced ⟨0⟩ none blank indents
  have same := written answer
  injection same with same
  exact ⟨head, inner, closing, opens.trans opening, encloses, by simpa using same⟩

end Session

end PhpDecl
