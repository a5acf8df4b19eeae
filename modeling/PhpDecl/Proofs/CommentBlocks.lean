import Mathlib.Data.List.Infix
import PhpDecl.DocComment
import PhpDecl.Proofs.Lines
import PhpDecl.Proofs.Literals
import PhpDecl.Proofs.Stripping

/-!
# Comments as blocks

A text that is written as a comment can be read back from it line by line, in both of its forms. A
comment ends where it is first closed, and nothing that closes it is taken out of the text. So the
comment holds the whole text exactly when nothing in the text closes it (`DocComment.closed_block`).
-/

namespace PhpDecl

open Text

namespace Text

/-- At how many places of a text a comment may end. -/
def closings (text : List Char) : Nat := text.tails.countP ("*/".toList.isPrefixOf ·)

end Text

namespace DocComment

/-- The lines of what stands between the marks of a comment: a single one between two blanks, or
those of a block, each behind its star. -/
def innerLines? (inner : List Char) : Option (List (List Char)) :=
  match lines inner with
  | [line] => ((line.dropPrefix? [' ']).bind (·.dropSuffix? [' '])).map ([·])
  | [] :: rest =>
      if rest.getLast? = some [' '] then rest.dropLast.mapM (·.dropPrefix? " * ".toList) else none
  | _ => none

/-- The lines of the text of a comment. -/
def linesOf? (comment : List Char) : Option (List (List Char)) :=
  ((comment.dropPrefix? "/**".toList).bind (·.dropSuffix? "*/\n".toList)).bind innerLines?

end DocComment

namespace Text

/-! ## Places where a comment may end -/

theorem closings_eq_zero_iff {text : List Char} : closings text = 0 ↔ ¬"*/".toList <:+: text := by
  rw [closings, List.countP_eq_zero, List.infix_iff_prefix_suffix]
  simp only [List.mem_tails, List.isPrefixOf_iff_prefix]
  constructor
  · rintro none ⟨rest, starts, inside⟩
    exact none rest inside starts
  · exact fun none rest inside starts => none ⟨rest, starts, inside⟩

theorem closings_cons (c : Char) (rest : List Char) : closings (c :: rest) =
    closings rest + if "*/".toList.isPrefixOf (c :: rest) then 1 else 0 := by
  rw [closings, List.tails_cons, List.countP_cons]
  rfl

theorem closings_cons_congr (c : Char) {text other : List Char} (heads : text.head? = other.head?)
    (same : closings text = closings other) : closings (c :: text) = closings (c :: other) := by
  have alike : "*/".toList.isPrefixOf (c :: text) = "*/".toList.isPrefixOf (c :: other) := by
    cases text with
    | nil =>
        cases other with
        | nil => rfl
        | cons => cases heads
    | cons d text =>
        cases other with
        | nil => cases heads
        | cons =>
            cases heads
            rfl
  rw [closings_cons, closings_cons, alike, same]

/-- Nothing is closed across two texts where the first does not end, or the second not begin, with
its part of the mark. -/
theorem closings_append {front rest : List Char}
    (apart : front.getLast? ≠ some '*' ∨ rest.head? ≠ some '/') :
    closings (front ++ rest) = closings front + closings rest := by
  induction front with
  | nil => exact (Nat.zero_add _).symm
  | cons c front ih =>
      have same : "*/".toList.isPrefixOf (c :: (front ++ rest)) =
          "*/".toList.isPrefixOf (c :: front) := by
        cases front with
        | cons next front => rfl
        | nil =>
            cases rest with
            | nil => rfl
            | cons d rest =>
                have other : '*' = c → '/' ≠ d := by
                  rintro rfl rfl
                  exact apart.elim (· rfl) (· rfl)
                simpa [List.isPrefixOf] using other
      have still : front.getLast? ≠ some '*' ∨ rest.head? ≠ some '/' :=
        apart.imp_left fun other last => other (by rw [List.getLast?_cons, last]; rfl)
      rw [List.cons_append, closings_cons, closings_cons, ih still, same]
      omega

/-- Where there is no star, nothing is closed. -/
theorem closings_of_not_mem {text : List Char} (starless : '*' ∉ text) : closings text = 0 := by
  refine closings_eq_zero_iff.2 fun inside => starless ?_
  exact inside.subset (.head _)

/-- Stripping takes no place out of a text where a comment may end. -/
theorem Stripped.closings_eq {text kept : List Char} (stripped : Stripped text kept) :
    closings text = closings kept := by
  obtain ⟨⟨front, back, rfl, blank, alsoBlank⟩, -, -⟩ := stripped
  have starless {blanks : List Char} (all : blanks.all isBlank = true) : '*' ∉ blanks :=
    not_mem_of_all all (by decide)
  have before : front.getLast? ≠ some '*' := fun last =>
    starless blank (List.mem_of_getLast? last)
  have behind : back.head? ≠ some '/' := fun head =>
    not_mem_of_all alsoBlank (by decide) (List.mem_of_head? head)
  rw [closings_append (.inl before), closings_append (.inr behind),
    closings_of_not_mem (starless blank), closings_of_not_mem (starless alsoBlank), Nat.zero_add,
    Nat.add_zero]

end Text

namespace DocComment

/-! ## The lines of a block -/

theorem head?_starred {text : List Char} : (starred text).head? = text.head? := by
  cases text with
  | nil => rfl
  | cons c rest =>
      rw [starred]
      split
      next feed => rw [eq_of_beq feed]; rfl
      next => rfl

/-- The stars in front of the lines close nothing: each has a blank behind. -/
theorem closings_starred (text : List Char) : closings (starred text) = closings text := by
  induction text with
  | nil => rfl
  | cons c rest ih =>
      rw [starred]
      split
      next feed =>
        obtain rfl := eq_of_beq feed
        have opened : closings ("\n * ".toList ++ starred rest) = closings rest :=
          (closings_append (.inl (by decide))).trans ((Nat.zero_add _).trans ih)
        have fed : closings (['\n'] ++ rest) = closings rest :=
          (closings_append (.inl (by decide))).trans (Nat.zero_add _)
        exact opened.trans fed.symm
      next => exact closings_cons_congr c head?_starred ih

/-- Every line but the first has a star in front. -/
theorem lines_starred {text first : List Char} {others : List (List Char)}
    (same : lines text = first :: others) :
    lines (starred text) = first :: others.map (" * ".toList ++ ·) := by
  induction text generalizing first others with
  | nil =>
      cases same
      rfl
  | cons c rest ih =>
      obtain ⟨second, more, lined⟩ := exists_lines rest
      have read := ih lined
      rw [starred]
      split
      next feed =>
        obtain rfl := eq_of_beq feed
        rw [lines_feed, lined] at same
        cases same
        have behind : lines (" * ".toList ++ starred rest) =
            (lines (starred rest)).modifyHead (" * ".toList ++ ·) :=
          lines_inline_append (by decide) _
        have cut : "\n * ".toList = '\n' :: " * ".toList := rfl
        rw [cut, List.cons_append, lines_feed, behind, read]
        rfl
      next other =>
        have inline : c ≠ '\n' := by simpa using other
        rw [lines_cons inline, lined] at same
        cases same
        rw [lines_cons inline, read]
        rfl

/-! ## The two forms -/

section

variable {content kept inner : List Char}

theorem render_inline (nonempty : trim content ≠ []) (inline : '\n' ∉ content) :
    render content = "/**".toList ++ ([' '] ++ trim content ++ [' ']) ++ "*/\n".toList := by
  rw [render, if_neg (by simpa using nonempty), if_neg (by simpa using inline)]
  simp

theorem render_block (nonempty : trim content ≠ []) (feed : '\n' ∈ content) :
    render content =
      "/**".toList ++ ("\n * ".toList ++ starred (trim content) ++ "\n ".toList) ++
        "*/\n".toList := by
  rw [render, if_neg (by simpa using nonempty), if_pos (by simpa using feed)]
  have opened : starred ("/**\n".toList ++ trim content) =
    "/**\n * ".toList ++ starred (trim content) := rfl
  rw [opened]
  simp

/-- What stands between the marks is apart from them by blanks. -/
theorem closings_enclosed (opened : inner.head? ≠ some '/') :
    closings ("/**".toList ++ inner ++ "*/\n".toList) = closings inner + 1 := by
  rw [closings_append (.inr (by decide)), closings_append (.inr opened)]
  exact Nat.add_right_cancel_iff.2 (Nat.zero_add _)

theorem closings_render (nonempty : trim content ≠ []) :
    closings (render content) = closings (trim content) + 1 := by
  by_cases feed : '\n' ∈ content
  · rw [render_block nonempty feed, closings_enclosed (by simp),
      closings_append (.inr (by decide)), closings_append (.inl (by decide)), closings_starred]
    exact Nat.add_right_cancel_iff.2 (Nat.zero_add _)
  · rw [render_inline nonempty feed, closings_enclosed (by simp),
      closings_append (.inr (by decide)), closings_append (.inl (by decide))]
    exact Nat.add_right_cancel_iff.2 (Nat.zero_add _)

theorem linesOf?_enclosed (inner : List Char) :
    linesOf? ("/**".toList ++ inner ++ "*/\n".toList) = innerLines? inner := by
  have closed : (inner ++ "*/\n".toList).dropSuffix? "*/\n".toList = some inner :=
    List.dropSuffix?_eq_some_iff.2 ⟨_, rfl, beq_self_eq_true _⟩
  rw [linesOf?, List.append_assoc, List.dropPrefix?_append_of_beq _ (beq_self_eq_true _),
    Option.bind_some, closed, Option.bind_some]

theorem mapM_dropPrefix? (mark : List Char) (texts : List (List Char)) :
    (texts.map (mark ++ ·)).mapM (·.dropPrefix? mark) = some texts := by
  induction texts with
  | nil => rfl
  | cons text texts ih =>
      rw [List.map_cons, List.mapM_cons, ih, List.dropPrefix?_append_of_beq _ (beq_self_eq_true _)]
      rfl

theorem innerLines?_inline (inline : '\n' ∉ kept) :
    innerLines? ([' '] ++ kept ++ [' ']) = some (lines kept) := by
  have single : lines ([' '] ++ kept ++ [' ']) = [[' '] ++ kept ++ [' ']] :=
    List.splitOn_eq_singleton (by simpa using inline)
  have closed : (kept ++ [' ']).dropSuffix? [' '] = some kept :=
    List.dropSuffix?_eq_some_iff.2 ⟨_, rfl, beq_self_eq_true _⟩
  have opened : ([' '] ++ kept ++ [' ']).dropPrefix? [' '] = some (kept ++ [' ']) := by
    rw [List.append_assoc]
    exact List.dropPrefix?_append_of_beq _ (beq_self_eq_true _)
  rw [innerLines?, single]
  change ((List.dropPrefix? _ [' ']).bind _).map _ = _
  rw [opened, Option.bind_some, closed, lines, List.splitOn_eq_singleton inline]
  rfl

theorem innerLines?_block (kept : List Char) :
    innerLines? ("\n * ".toList ++ starred kept ++ "\n ".toList) = some (lines kept) := by
  obtain ⟨first, others, lined⟩ := exists_lines kept
  have starry : lines (" * ".toList ++ starred kept) = (lines kept).map (" * ".toList ++ ·) := by
    rw [lines_inline_append (by decide), lines_starred lined, lined]
    rfl
  have cut : "\n * ".toList ++ starred kept ++ "\n ".toList =
      '\n' :: (" * ".toList ++ starred kept ++ '\n' :: [' ']) := rfl
  have read : lines ("\n * ".toList ++ starred kept ++ "\n ".toList) =
      [] :: ((lines kept).map (" * ".toList ++ ·) ++ [[' ']]) := by
    rw [cut, lines_feed, lines_append_feed, starry]
    rfl
  rw [innerLines?, read, lined]
  change (if _ then _ else _) = _
  rw [if_pos List.getLast?_concat, List.dropLast_concat, mapM_dropPrefix?]

/-- The text is read back from its comment, line by line. -/
theorem linesOf?_render (nonempty : trim content ≠ []) :
    linesOf? (render content) = some (lines (trim content)) := by
  by_cases feed : '\n' ∈ content
  · rw [render_block nonempty feed, linesOf?_enclosed, innerLines?_block]
  · have inline : '\n' ∉ trim content := fun member => feed ((stripped_trim content).subset member)
    rw [render_inline nonempty feed, linesOf?_enclosed, innerLines?_inline inline]

end

/-- Between its marks a comment has line feeds just when its text was given with some. -/
theorem exists_render (content : List Char) (nonempty : trim content ≠ []) :
    ∃ inner, render content = "/**".toList ++ inner ++ "*/\n".toList ∧
      ('\n' ∈ inner ↔ '\n' ∈ content) := by
  by_cases feed : '\n' ∈ content
  · exact ⟨_, render_block nonempty feed, iff_of_true (.head _) feed⟩
  · refine ⟨_, render_inline nonempty feed, iff_of_false (fun member => feed ?_) feed⟩
    exact (stripped_trim content).subset (by simpa using member)

/-- A text is written as a comment unless it is blank, and the stripped text can be read back from
the comment line by line: from a block of lines when it was given with line feeds, and from a single
line otherwise. Nothing that closes a comment is taken out of the text or added to it: the comment
is closed at its end, and wherever the text closes one. So it is closed at its end only, exactly
when the text closes none. -/
theorem closed_block (content : List Char) :
    (render content = [] ↔ content.all isBlank = true) ∧
      (content.all isBlank = false → ∃ kept inner, Stripped content kept ∧
        render content = "/**".toList ++ inner ++ "*/\n".toList ∧
        ('\n' ∈ inner ↔ '\n' ∈ content) ∧
        linesOf? (render content) = some (lines kept) ∧
        closings (render content) = closings content + 1 ∧
        (closings (render content) = 1 ↔ ¬"*/".toList <:+: content)) := by
  have stripped := stripped_trim content
  have blank_iff := stripped.eq_nil_iff
  have shown (nonempty : trim content ≠ []) : render content ≠ [] := by
    obtain ⟨inner, written, -⟩ := exists_render content nonempty
    rw [written]
    simp
  refine ⟨⟨fun empty => ?_, fun blank => ?_⟩, fun unblank => ?_⟩
  · exact blank_iff.1 (not_not.1 fun nonempty => shown nonempty empty)
  · rw [render, blank_iff.2 blank]
    rfl
  · have nonempty : trim content ≠ [] := by
      rw [Ne, blank_iff, unblank]
      exact Bool.false_ne_true
    obtain ⟨inner, written, feeds⟩ := exists_render content nonempty
    have counted : closings (render content) = closings content + 1 := by
      rw [closings_render nonempty, stripped.closings_eq]
    refine ⟨trim content, inner, stripped, written, feeds, linesOf?_render nonempty, counted, ?_⟩
    rw [counted, ← closings_eq_zero_iff]
    omega

/-- A star at the end of a line and a slash at the start of the next one close nothing. -/
theorem closed_block_broken :
    "one *\n/ two ".toList.all isBlank = false ∧
      closings (render "one *\n/ two ".toList) = 1 ∧
      linesOf? (render "one *\n/ two ".toList) = some ["one *".toList, "/ two".toList] := by
  have unblank : "one *\n/ two ".toList.all isBlank = false := by decide
  obtain ⟨-, -, -, -, -, -, -, once⟩ := (closed_block "one *\n/ two ".toList).2 unblank
  exact ⟨unblank, once.2 (by decide), by decide⟩

/-- A text that closes a comment ends its own early. -/
theorem not_closed_once :
    "a */ b".toList.all isBlank = false ∧
      render "a */ b".toList = "/** a */ b */\n".toList ∧
      closings (render "a */ b".toList) = 2 := by
  decide

end DocComment

end PhpDecl
