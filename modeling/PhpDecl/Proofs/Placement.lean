import PhpDecl.Declaration.Printer
import PhpDecl.Proofs.Settle

/-!
# Where members stand

Every member of a declaration stands in the body on lines of its own, and the body stands behind
the opening brace. So the text of a declaration holds every member as it comes out of indenting
and normalizing by itself.
-/

namespace PhpDecl

open Text

/-! ## Lines of their own -/

/-- The text ends where a line may start. -/
def EndsLine (text : List Char) : Prop := text = [] ∨ ∃ front, text = front ++ ['\n']

/-- The text starts where a line may end. -/
def StartsBreak (text : List Char) : Prop := text = [] ∨ ∃ rest, text = '\n' :: rest

/-- The text keeps others on lines of their own. -/
def Separates (text : List Char) : Prop :=
  (∃ rest, text = '\n' :: rest) ∧ ∃ front, text = front ++ ['\n']

theorem separates_replicate (n : Nat) : Separates (List.replicate (n + 1) '\n') :=
  ⟨⟨_, List.replicate_succ⟩, ⟨_, List.replicate_succ'⟩⟩

theorem EndsLine.append {first second : List Char} (h : EndsLine first) (h' : EndsLine second) :
    EndsLine (first ++ second) := by
  rcases h' with rfl | ⟨front, rfl⟩
  · rwa [List.append_nil]
  · exact .inr ⟨first ++ front, (List.append_assoc ..).symm⟩

theorem StartsBreak.append {first second : List Char} (h : StartsBreak first)
    (h' : StartsBreak second) : StartsBreak (first ++ second) := by
  rcases h with rfl | ⟨rest, rfl⟩
  · rwa [List.nil_append]
  · exact .inr ⟨rest ++ second, rfl⟩

theorem EndsLine.dropWhile {text : List Char} (ends : EndsLine text) (p : Char → Bool) :
    EndsLine (text.dropWhile p) := by
  rcases ends with rfl | ⟨front, rfl⟩
  · exact .inl rfl
  · obtain ⟨dropped, same⟩ := List.dropWhile_suffix p (l := front ++ ['\n'])
    rcases List.eq_nil_or_concat ((front ++ ['\n']).dropWhile p) with none | ⟨kept, last, some⟩
    · exact .inl none
    · refine .inr ⟨kept, ?_⟩
      rw [some, List.concat_eq_append, ← List.append_assoc] at same
      rw [some, List.concat_eq_append, (List.append_inj' same rfl).2]

/-- Behind lines that are ended, the rest is settled by itself. -/
theorem EndsLine.exists_settleLines {text : List Char} (ends : EndsLine text) :
    ∃ lines, EndsLine lines ∧ ∀ rest, settleLines (text ++ rest) = lines ++ settleLines rest := by
  rcases ends with rfl | ⟨front, rfl⟩
  · exact ⟨[], .inl rfl, fun _ => rfl⟩
  · obtain ⟨lines, settles⟩ := exists_settleLines_append (c := '\n') (by decide) front
    refine ⟨lines ++ ['\n'], .inr ⟨lines, rfl⟩, fun rest => ?_⟩
    rw [List.append_assoc, List.append_assoc]
    exact settles rest

namespace Separates

variable {separator : List Char}

theorem endsLine (separates : Separates separator) (text : List Char) :
    EndsLine (text ++ separator) := by
  obtain ⟨-, front, rfl⟩ := separates
  exact .inr ⟨text ++ front, (List.append_assoc ..).symm⟩

theorem startsBreak (separates : Separates separator) (text : List Char) :
    StartsBreak (separator ++ text) := by
  obtain ⟨⟨rest, rfl⟩, -⟩ := separates
  exact .inr ⟨rest ++ text, rfl⟩

end Separates

/-- The first text stands in the second one on lines of its own. -/
def Placed (part whole : List Char) : Prop :=
  ∃ before after, whole = before ++ part ++ after ∧ EndsLine before ∧ StartsBreak after

namespace Placed

variable {part middle whole : List Char}

theorem trans (inner : Placed part middle) (outer : Placed middle whole) : Placed part whole := by
  obtain ⟨before, after, rfl, ends, starts⟩ := inner
  obtain ⟨front, back, rfl, ends', starts'⟩ := outer
  exact ⟨front ++ before, after ++ back, by simp, ends'.append ends, starts.append starts'⟩

/-- The lines in front of a text that starts where a line may end. -/
theorem before (part : List Char) {rest : List Char} (starts : StartsBreak rest) :
    Placed part (part ++ rest) :=
  ⟨[], rest, rfl, .inl rfl, starts⟩

/-- The lines behind a text that ends where a line may start. -/
theorem after {front : List Char} (ends : EndsLine front) (placed : Placed part whole) :
    Placed part (front ++ whole) := by
  obtain ⟨before, after, rfl, ends', starts⟩ := placed
  exact ⟨front ++ before, after, by simp, ends.append ends', starts⟩

/-- A member of texts that are joined by a separator stands on lines of its own. -/
theorem joined {separator : List Char} (separates : Separates separator)
    {parts : List (List Char)} (member : part ∈ parts) :
    Placed part (Text.joined separator parts) := by
  induction parts with
  | nil => cases member
  | cons first rest ih =>
      cases rest with
      | nil =>
          rw [List.mem_singleton.1 member, ← List.append_nil (Text.joined _ _)]
          exact before _ (.inl rfl)
      | cons second others =>
          rw [joined_cons_of_ne_nil _ _ (List.cons_ne_nil _ _)]
          rcases List.mem_cons.1 member with rfl | later
          · rw [List.append_assoc]
            exact before _ (separates.startsBreak _)
          · exact after (separates.endsLine first) (ih later)

end Placed

namespace Declaration

theorem startsBreak_joinGroups {groups : List (List Char × List Char)} {pending : List Char}
    (separates : Separates pending) : StartsBreak (joinGroups pending groups) := by
  induction groups with
  | nil => exact .inl rfl
  | cons group groups ih =>
      rw [joinGroups]
      split
      · exact ih
      · rw [List.append_assoc]
        exact separates.startsBreak _

/-- A group that is not empty stands on lines of its own, behind the pending separator. -/
theorem exists_joinGroups {groups : List (List Char × List Char)}
    (separates : ∀ group ∈ groups, Separates group.2) {text separator : List Char}
    (member : (text, separator) ∈ groups) (written : text.isEmpty = false)
    (pending : List Char) :
    ∃ rest, joinGroups pending groups = pending ++ rest ∧ Placed text rest := by
  induction groups generalizing pending with
  | nil => cases member
  | cons group groups ih =>
      -- The separator in front of the rest is the pending one as long as nothing is written.
      have others := ih fun group later => separates group (.tail _ later)
      rcases List.mem_cons.1 member with rfl | later
      · refine ⟨text ++ joinGroups separator groups, ?_, .before _ ?_⟩
        · rw [joinGroups, if_neg (Bool.eq_false_iff.1 written), List.append_assoc]
        · exact startsBreak_joinGroups (separates _ (.head _))
      · rw [joinGroups]
        split
        · exact others later pending
        · obtain ⟨rest, same, placed⟩ := others later group.2
          refine ⟨group.1 ++ group.2 ++ rest, ?_, ?_⟩
          · rw [same]
            simp only [List.append_assoc]
          · exact placed.after ((separates _ (.head _)).endsLine group.1)

variable (d : PlainDeclaration) (shortener : Shortener) (layout : Layout)

/-- The members of a declaration as they stand in its body. -/
def memberText : List Char := joinGroups [] (d.groups shortener layout)

theorem separates_groups : ∀ group ∈ d.groups shortener layout, Separates group.2 := by
  intro group member
  simp only [groups, List.mem_cons, List.not_mem_nil, or_false] at member
  rcases member with rfl | rfl | rfl | rfl
  · exact separates_replicate 1
  · exact separates_replicate 1
  · exact separates_replicate 2
  · exact separates_replicate 0

/-- A member of a group stands in the body on lines of its own. -/
theorem placed_memberText {separator behind : List Char} {parts : List (List Char)}
    (group : (joined separator parts, behind) ∈ d.groups shortener layout)
    (separates : Separates separator) {part : List Char} (member : part ∈ parts)
    (written : part.isEmpty = false) : Placed part (d.memberText shortener layout) := by
  have placed := Placed.joined separates member
  have some : (joined separator parts).isEmpty = false := by
    obtain ⟨before, after, same, -⟩ := placed
    cases part with
    | nil => cases written
    | cons c rest => simp [same]
  obtain ⟨rest, same, outer⟩ :=
    exists_joinGroups (d.separates_groups shortener layout) group some []
  rw [memberText, same]
  exact placed.trans outer

theorem endsLine_body : EndsLine (d.body shortener layout) := by
  rw [body]
  split
  · exact .inl rfl
  · exact .inr ⟨_, rfl⟩

/-- Behind lines that are ended, settling starts anew. -/
theorem settleLines_indentFrom_append (margin : List Char) {text : List Char}
    (ends : EndsLine text) (rest : List Char) :
    settleLines (indentFrom margin true text ++ rest) =
      settled margin true text ++ settleLines rest := by
  rcases ends with rfl | ⟨front, rfl⟩
  · rfl
  · obtain ⟨lines, indents⟩ := exists_indentFrom_append margin true front '\n'
    have ended : indentFrom margin true (front ++ ['\n']) = lines ++ ['\n'] := indents []
    obtain ⟨kept, settles⟩ := exists_settleLines_append (c := '\n') (by decide) lines
    have alone : settleLines (lines ++ ['\n']) = kept ++ ['\n'] := settles []
    rw [settled, ended, alone, List.append_assoc, List.append_assoc, List.singleton_append,
      settles, List.singleton_append]

/-- The text of a declaration is its comment and head, normalized by themselves, and its body as
it comes out of indenting and normalizing, up to the closing brace. -/
theorem render_eq : d.render shortener layout =
    normalize (d.commentText ++ d.header shortener) ++ '\n' ::
      (settled layout.unit true (d.body shortener layout) ++
        '}' :: if d.name.isSome then ['\n'] else []) := by
  -- The opening brace keeps what stands in front of it apart from the body, in every pass.
  obtain ⟨head, header⟩ : ∃ head, d.header shortener = head ++ ['{', '\n'] := ⟨_, rfl⟩
  obtain ⟨front, opens⟩ := exists_settleLines_append (c := '{') (by decide) (d.commentText ++ head)
  have trims := trimBreaks_append_cons (by decide : '{' ≠ '\n') front
  generalize front.dropWhile (· == '\n') = opening at trims
  have heading : normalize (d.commentText ++ d.header shortener) = opening ++ ['{'] := by
    have feed : settleLines ['\n'] = ['\n'] := by decide
    rw [normalize_eq, header, ← List.append_assoc, opens, feed, trims]
    rfl
  have closes : settleLines ['}'] = ['}'] := by decide
  have code : normalize (d.commentText ++ d.header shortener ++
      indent layout 1 (d.body shortener layout) ++ ['}']) =
        opening ++ '{' ::
          ('\n' :: settled layout.unit true (d.body shortener layout) ++ ['}']) := by
    calc
      _ = trimBreaks (settleLines ((d.commentText ++ head) ++
            '{' :: '\n' :: (indentFrom layout.unit true (d.body shortener layout) ++ ['}']))) := by
          rw [normalize_eq, indent_one, header]
          simp only [List.append_assoc, List.cons_append, List.nil_append]
      _ = trimBreaks (front ++ '{' ::
            ('\n' :: settled layout.unit true (d.body shortener layout) ++ ['}'])) := by
          rw [opens, settleLines_cons (by decide),
            settleLines_indentFrom_append _ (d.endsLine_body shortener layout), closes,
            List.cons_append]
      _ = _ := by
          rw [trims, dropEndWhile_append_cons (by decide)]
          rfl
  rw [Declaration.render, code, heading]
  split
  · simp
  · simp

/-- The text of a declaration with members holds its body as it comes out of indenting and
normalizing. -/
theorem exists_render_memberText (written : (d.memberText shortener layout).isEmpty = false) :
    ∃ opening closing, d.render shortener layout = opening ++ '\n' ::
      (settled layout.unit true (d.memberText shortener layout ++ ['\n']) ++ closing) := by
  have body : d.body shortener layout = d.memberText shortener layout ++ ['\n'] := by
    rw [Declaration.body, ← memberText, if_neg (Bool.eq_false_iff.1 written)]
  rw [render_eq, body]
  exact ⟨_, _, rfl⟩

/-- The text of a declaration holds everything that stands in the body on lines of its own as it
comes out of indenting and normalizing by itself. -/
theorem exists_render {part : List Char} (placed : Placed part (d.memberText shortener layout))
    (written : part.isEmpty = false) : ∃ before more after, d.render shortener layout =
      before ++ '\n' :: (settled layout.unit true (part ++ '\n' :: more) ++ after) := by
  obtain ⟨before, after, same, ends, starts⟩ := placed
  have some : (d.memberText shortener layout).isEmpty = false := by
    cases part with
    | nil => cases written
    | cons c rest => simp [same]
  obtain ⟨opening, closing, rendered⟩ := d.exists_render_memberText shortener layout some
  -- Behind the part a line feed comes in any case: its own separator, or the end of the body.
  obtain ⟨more, behind⟩ : ∃ more, after ++ ['\n'] = '\n' :: more := by
    rcases starts with rfl | ⟨rest, rfl⟩
    · exact ⟨[], rfl⟩
    · exact ⟨rest ++ ['\n'], rfl⟩
  have members : d.memberText shortener layout ++ ['\n'] = before ++ (part ++ '\n' :: more) := by
    rw [same, ← behind]
    simp only [List.append_assoc]
  rw [rendered, members]
  rcases ends with rfl | ⟨front, rfl⟩
  · exact ⟨opening, more, closing, rfl⟩
  · obtain ⟨lines, settles⟩ :=
      exists_settled_append (c := '\n') (by decide) layout.unit true front
    refine ⟨opening ++ '\n' :: lines, more, closing, ?_⟩
    rw [List.append_assoc, List.singleton_append, settles]
    simp only [List.append_assoc, List.cons_append]
    rfl

end Declaration

end PhpDecl
