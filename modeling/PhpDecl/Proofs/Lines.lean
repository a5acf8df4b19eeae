import PhpDecl.Proofs.Settle

/-!
# The lines of a text

A text is cut into lines at its line feeds. Its lines, with a line feed between each two, are the
text again (`eq_of_lines`).
-/

namespace PhpDecl.Text

/-- The lines of a text, at its line feeds. -/
def lines (text : List Char) : List (List Char) := text.splitOn '\n'

@[simp] theorem lines_nil : lines [] = [[]] := rfl

@[simp] theorem lines_feed (rest : List Char) : lines ('\n' :: rest) = [] :: lines rest := by
  rw [lines, List.splitOn_cons_eq_if_modifyHead, if_pos (beq_self_eq_true _), lines]

theorem lines_cons {c : Char} (other : c ≠ '\n') (rest : List Char) :
    lines (c :: rest) = (lines rest).modifyHead (c :: ·) := by
  rw [lines, List.splitOn_cons_eq_if_modifyHead, if_neg (by simpa using other), lines]

theorem lines_append_feed (text rest : List Char) :
    lines (text ++ '\n' :: rest) = lines text ++ lines rest :=
  List.splitOn_append_cons_self text rest

/-- A text has a first line. -/
theorem exists_lines (text : List Char) : ∃ first others, lines text = first :: others :=
  List.exists_cons_of_ne_nil (List.splitOn_ne_nil '\n' text)

/-- A text has a last line. -/
theorem exists_lines_concat (text : List Char) : ∃ front last, lines text = front ++ [last] := by
  rcases List.eq_nil_or_concat (lines text) with none | ⟨front, last, split⟩
  · exact absurd none (List.splitOn_ne_nil _ _)
  · exact ⟨front, last, split.trans (List.concat_eq_append ..)⟩

/-- What has no line feed belongs to the first line of what comes behind it. -/
theorem lines_inline_append {front : List Char} (inline : front.all isInline = true)
    (rest : List Char) : lines (front ++ rest) = (lines rest).modifyHead (front ++ ·) := by
  induction front with
  | nil =>
      obtain ⟨first, others, same⟩ := exists_lines rest
      rw [List.nil_append, same]
      rfl
  | cons c front ih =>
      rw [List.all_cons, Bool.and_eq_true, isInline, Bool.and_eq_true, bne_iff_ne,
        bne_iff_ne] at inline
      rw [List.cons_append, lines_cons inline.1.2, ih inline.2, List.modifyHead_modifyHead]
      rfl

/-- The last line of a text goes on with the first line of the text behind it. -/
theorem lines_append {text rest line first : List Char} {front others : List (List Char)}
    (split : lines text = front ++ [line]) (next : lines rest = first :: others) :
    lines (text ++ rest) = front ++ (line ++ first) :: others := by
  induction text generalizing front line with
  | nil =>
      cases front with
      | nil =>
          cases split
          exact next
      | cons => simp at split
  | cons c text ih =>
      by_cases feed : c = '\n'
      · subst feed
        rw [lines_feed] at split
        cases front with
        | nil => exact absurd (List.cons.inj split).2 (List.splitOn_ne_nil _ _)
        | cons =>
            obtain ⟨rfl, later⟩ := List.cons.inj split
            rw [List.cons_append, lines_feed, ih later]
            rfl
      · obtain ⟨second, more, lined⟩ := exists_lines text
        rw [lines_cons feed, lined] at split
        rw [List.cons_append, lines_cons feed]
        cases front with
        | nil =>
            obtain ⟨rfl, rfl⟩ := List.cons.inj split
            rw [ih (show lines text = [] ++ [second] from lined)]
            rfl
        | cons _ front =>
            obtain ⟨rfl, rfl⟩ := List.cons.inj split
            rw [ih (show lines text = second :: front ++ [line] from lined)]
            rfl

/-- A text is its first line, and the others each behind a line feed. -/
theorem eq_append_of_lines {text first : List Char} {others : List (List Char)}
    (same : lines text = first :: others) : text = first ++ others.flatMap ('\n' :: ·) := by
  induction text generalizing first others with
  | nil =>
      cases same
      rfl
  | cons c text ih =>
      obtain ⟨second, more, lined⟩ := exists_lines text
      have rest := ih lined
      by_cases feed : c = '\n'
      · subst feed
        rw [lines_feed, lined] at same
        cases same
        rw [List.flatMap_cons, List.nil_append, List.cons_append, ← rest]
      · rw [lines_cons feed, lined] at same
        cases same
        rw [List.cons_append, ← rest]

/-- Texts with a line feed in front of each, and one behind the last, have one behind each. -/
theorem flatMap_feed_append (texts : List (List Char)) (rest : List Char) :
    texts.flatMap ('\n' :: ·) ++ '\n' :: rest =
      '\n' :: (texts.flatMap (· ++ ['\n']) ++ rest) := by
  induction texts with
  | nil => rfl
  | cons first texts ih =>
      rw [List.flatMap_cons, List.flatMap_cons, List.append_assoc, ih]
      simp only [List.cons_append, List.append_assoc, List.nil_append]

/-- The lines of a text with a line feed behind each are the text and a line feed. -/
theorem flatMap_lines (text : List Char) :
    (lines text).flatMap (· ++ ['\n']) = text ++ ['\n'] := by
  obtain ⟨first, others, same⟩ := exists_lines text
  rw [same, eq_append_of_lines same, List.append_assoc, flatMap_feed_append, List.append_nil,
    List.flatMap_cons, List.append_assoc, List.singleton_append]

/-- What stands in front of a line, and what stands behind it. -/
theorem eq_of_lines {text line : List Char} {front back : List (List Char)}
    (split : lines text = front ++ line :: back) :
    text = front.flatMap (· ++ ['\n']) ++ line ++ back.flatMap ('\n' :: ·) := by
  cases front with
  | nil => exact eq_append_of_lines split
  | cons first front =>
      have same := eq_append_of_lines (split.trans (List.cons_append ..))
      rw [List.flatMap_append, List.flatMap_cons, List.cons_append, flatMap_feed_append] at same
      rw [same, List.flatMap_cons]
      simp only [List.append_assoc, List.cons_append, List.nil_append]

theorem lines_of_not_mem {line : List Char} (inline : '\n' ∉ line) : lines line = [line] :=
  List.splitOn_eq_singleton inline

/-- Texts without line feeds, each with one behind it, are lines. -/
theorem lines_flatMap {texts : List (List Char)} (inline : ∀ line ∈ texts, '\n' ∉ line)
    (rest : List Char) : lines (texts.flatMap (· ++ ['\n']) ++ rest) = texts ++ lines rest := by
  induction texts with
  | nil => rfl
  | cons line texts ih =>
      have first : line ++ ['\n'] ++ texts.flatMap (· ++ ['\n']) ++ rest =
          line ++ '\n' :: (texts.flatMap (· ++ ['\n']) ++ rest) := by simp
      rw [List.flatMap_cons, first, lines_append_feed, lines_of_not_mem (inline line (.head _)),
        ih fun other later => inline other (.tail _ later)]
      rfl

/-- What is in a line is in the text, and is no line feed. -/
theorem mem_of_mem_lines {text line : List Char} (member : line ∈ lines text) {c : Char}
    (inside : c ∈ line) : c ∈ text ∧ c ≠ '\n' := by
  induction text generalizing line with
  | nil =>
      rw [lines_nil, List.mem_singleton] at member
      rw [member] at inside
      cases inside
  | cons d text ih =>
      by_cases feed : d = '\n'
      · subst feed
        rw [lines_feed] at member
        rcases List.mem_cons.1 member with rfl | later
        · cases inside
        · exact ⟨.tail _ (ih later inside).1, (ih later inside).2⟩
      · obtain ⟨first, others, same⟩ := exists_lines text
        rw [lines_cons feed, same, List.modifyHead_cons] at member
        rw [same] at ih
        rcases List.mem_cons.1 member with rfl | later
        · rcases List.mem_cons.1 inside with rfl | within
          · exact ⟨.head _, feed⟩
          · exact ⟨.tail _ (ih (.head _) within).1, (ih (.head _) within).2⟩
        · exact ⟨.tail _ (ih (.tail _ later) inside).1, (ih (.tail _ later) inside).2⟩

end PhpDecl.Text
