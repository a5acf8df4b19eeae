import PhpDecl.Text.Join
import PhpDecl.Text.Lines
import PhpDecl.Text.Normal

/-!
# Indenting and normalizing part by part

The text of a declaration is indented and normalized as a whole. Neither pass looks past a
character that is firm: one that is no carriage return, no space or tab, and no stray control.
So what comes of a text can be told part by part (`exists_settled_append`), and a part without
breaks of its own is only interrupted behind the other characters that count as ends of lines
(`settled_inline`).
-/

namespace PhpDecl.Text

/-! ## Indentation, character by character -/

/-- Put a margin before every line that is not empty, where `start` tells whether the text
starts at the start of a line. -/
def indentFrom (margin : List Char) : Bool → List Char → List Char
  | _, [] => []
  | start, c :: rest =>
      (if start && !(c == '\r' || c == '\n') then margin else []) ++
        c :: indentFrom margin (isLineBreak c) rest

/-- The rest of a line, and the lines behind it. -/
def indentRest (margin : List Char) : List Line → List Char
  | [] => []
  | line :: lines => line.text ++ lines.flatMap (Line.indented margin)

theorem ne_feed_of_not_isLineBreak {c : Char} (inside : ¬isLineBreak c = true) :
    c ≠ '\r' ∧ c ≠ '\n' := by
  constructor
  · rintro rfl
    exact inside (by decide)
  · rintro rfl
    exact inside (by decide)

/-- Indenting by lines and going through the characters is the same, from the start of a line and
from inside one. -/
theorem indentFrom_eq (margin text : List Char) :
    indentFrom margin true text = indentBy margin text ∧
      indentFrom margin false text = indentRest margin (Line.split text) := by
  unfold indentBy
  -- Both at once, for a break leads from inside a line to the start of one.
  fun_induction Line.split text with
  | case1 => exact ⟨rfl, rfl⟩
  | case2 rest ih =>
      have slash : isLineBreak '\r' = true := by decide
      have feed : isLineBreak '\n' = true := by decide
      simp [indentFrom, indentRest, Line.indented, Line.isEmpty, Line.text, slash, feed, ih.1]
  | case3 c rest _ ends ih =>
      by_cases feed : c = '\r' ∨ c = '\n'
      · rcases feed with rfl | rfl
        · simp [indentFrom, indentRest, Line.indented, Line.isEmpty, Line.text, ends, ih.1]
        · simp [indentFrom, indentRest, Line.indented, Line.isEmpty, Line.text, ends, ih.1]
      · obtain ⟨noReturn, noFeed⟩ := not_or.1 feed
        simp [indentFrom, indentRest, Line.indented, Line.isEmpty, Line.text, ends, ih.1, noReturn,
          noFeed]
  | case4 c rest _ inside none ih =>
      obtain ⟨noReturn, noFeed⟩ := ne_feed_of_not_isLineBreak inside
      rw [none] at ih
      simp [indentFrom, indentRest, Line.indented, Line.isEmpty, Line.text, inside, ih.2, noReturn,
        noFeed]
  | case5 c rest _ inside line lines some ih =>
      obtain ⟨noReturn, noFeed⟩ := ne_feed_of_not_isLineBreak inside
      rw [some] at ih
      simp [indentFrom, indentRest, Line.indented, Line.isEmpty, Line.text, inside, ih.2, noReturn,
        noFeed]

/-- Indenting goes through a text from the start of a line. -/
theorem indentBy_eq_indentFrom (margin text : List Char) :
    indentBy margin text = indentFrom margin true text := (indentFrom_eq margin text).1.symm

/-- One level of indentation is one unit. -/
theorem indent_one (layout : Layout) (text : List Char) :
    indent layout 1 text = indentFrom layout.unit true text := by
  have margin : layout.margin 1 = layout.unit := by simp [Layout.margin_succ]
  rw [indent_eq_indentBy, indentBy_eq_indentFrom]
  exact congrArg (indentFrom · true text) margin

/-- Behind a character a text is indented as it is by itself. -/
theorem exists_indentFrom_append (margin : List Char) (start : Bool) (text : List Char)
    (c : Char) : ∃ front, ∀ rest, indentFrom margin start (text ++ c :: rest) =
      front ++ c :: indentFrom margin (isLineBreak c) rest := by
  induction text generalizing start with
  | nil => exact ⟨_, fun _ => rfl⟩
  | cons d text ih =>
      obtain ⟨front, same⟩ := ih (isLineBreak d)
      refine ⟨(if start && !(d == '\r' || d == '\n') then margin else []) ++ d :: front,
        fun rest => ?_⟩
      rw [List.cons_append, indentFrom, same, List.append_assoc, List.cons_append]

/-! ## Normalizing in two parts -/

/-- A character that stays in a normalized text wherever it stands. -/
def isFirm (c : Char) : Bool := c != '\r' && !isPad c && !isStrayControl c

/-- All of normalizing but the trimming of line feeds at both ends. -/
def settleLines (text : List Char) : List Char :=
  trimLineEnds ((unifyBreaks text).filter (!isStrayControl ·))

theorem normalize_eq (text : List Char) : normalize text = trimBreaks (settleLines text) := rfl

/-- A carriage return that no line feed follows, or another character. -/
theorem unifyBreaks_cons {c : Char} {rest : List Char}
    (apart : ∀ others, c = '\r' → rest = '\n' :: others → False) :
    unifyBreaks (c :: rest) = (if c == '\r' then '\n' else c) :: unifyBreaks rest := by
  rw [unifyBreaks]
  exact apart

/-- Behind a character other than a carriage return breaks are unified by themselves. -/
theorem exists_unifyBreaks_append {c : Char} (solid : c ≠ '\r') (text : List Char) :
    ∃ front, ∀ rest, unifyBreaks (text ++ c :: rest) = front ++ c :: unifyBreaks rest := by
  have alone (rest : List Char) : unifyBreaks (c :: rest) = c :: unifyBreaks rest := by
    rw [unifyBreaks_cons fun _ same => absurd same solid, if_neg (by simpa using solid)]
  fun_induction unifyBreaks text with
  | case1 => exact ⟨[], alone⟩
  | case2 others ih =>
      obtain ⟨front, same⟩ := ih
      refine ⟨'\n' :: front, fun rest => ?_⟩
      simp only [List.cons_append, unifyBreaks, same]
  | case3 d others apart ih =>
      obtain ⟨front, same⟩ := ih
      -- A carriage return at the end makes one break with a line feed behind it.
      by_cases pair : others = [] ∧ d = '\r' ∧ c = '\n'
      · obtain ⟨rfl, rfl, rfl⟩ := pair
        exact ⟨[], fun _ => rfl⟩
      · refine ⟨(if d == '\r' then '\n' else d) :: front, fun rest => ?_⟩
        rw [List.cons_append, unifyBreaks_cons, same, List.cons_append]
        intro more first second
        cases others with
        | nil => exact pair ⟨rfl, first, (List.cons.inj second).1⟩
        | cons e others =>
            exact apart others first (congrArg (· :: others) (List.cons.inj second).1)

/-- Behind a character that is neither space nor tab the ends of lines are trimmed by
themselves. -/
theorem exists_trimLineEnds_append {c : Char} (ink : isPad c = false) (text : List Char) :
    ∃ front, ∀ rest, trimLineEnds (text ++ c :: rest) = front ++ c :: trimLineEnds rest := by
  induction text with
  | nil =>
      refine ⟨[], fun rest => ?_⟩
      rw [List.nil_append, trimLineEnds, ink, Bool.false_and, if_neg Bool.false_ne_true]
      rfl
  | cons d text ih =>
      obtain ⟨front, same⟩ := ih
      -- Whether `d` stays depends on what comes next, which is there whatever the rest is.
      have next (rest : List Char) : (front ++ c :: rest).isEmpty = false ∧
          (front ++ c :: rest).head? = (front ++ [c]).head? := by
        cases front with
        | nil => exact ⟨rfl, rfl⟩
        | cons => exact ⟨rfl, rfl⟩
      by_cases dropped : (isPad d && (front ++ [c]).head? == some '\n') = true
      · refine ⟨front, fun rest => ?_⟩
        rw [List.cons_append, trimLineEnds, same]
        simp only [next, Bool.false_or]
        rw [if_pos dropped]
      · refine ⟨d :: front, fun rest => ?_⟩
        rw [List.cons_append, trimLineEnds, same]
        simp only [next, Bool.false_or]
        rw [if_neg dropped, List.cons_append]

/-- Behind a firm character lines are settled by themselves. -/
theorem exists_settleLines_append {c : Char} (firm : isFirm c = true) (text : List Char) :
    ∃ front, ∀ rest, settleLines (text ++ c :: rest) = front ++ c :: settleLines rest := by
  simp only [isFirm, Bool.and_eq_true, Bool.not_eq_true', bne_iff_ne] at firm
  obtain ⟨⟨solid, ink⟩, plain⟩ := firm
  have kept : (!isStrayControl c) = true := by rw [plain]; rfl
  obtain ⟨unified, unify⟩ := exists_unifyBreaks_append solid text
  obtain ⟨front, trim⟩ := exists_trimLineEnds_append ink (unified.filter (!isStrayControl ·))
  refine ⟨front, fun rest => ?_⟩
  rw [settleLines, unify, List.filter_append,
    List.filter_cons_of_pos (p := (!isStrayControl ·)) kept, trim]
  rfl

/-! ## Settling an indented text -/

/-- A text as it comes out of indenting and of all of normalizing but its last pass. -/
def settled (margin : List Char) (start : Bool) (text : List Char) : List Char :=
  settleLines (indentFrom margin start text)

/-- Behind a firm character a text is settled by itself. -/
theorem exists_settled_append {c : Char} (firm : isFirm c = true) (margin : List Char)
    (start : Bool) (text : List Char) :
    ∃ front, ∀ rest, settled margin start (text ++ c :: rest) =
      front ++ c :: settled margin (isLineBreak c) rest := by
  obtain ⟨indented, indent⟩ := exists_indentFrom_append margin start text c
  obtain ⟨front, settle⟩ := exists_settleLines_append firm indented
  refine ⟨front, fun rest => ?_⟩
  rw [settled, indent, settle, settled]

/-- Behind a firm character a text is settled by itself, and so is the text up to it. -/
theorem settled_append {c : Char} (firm : isFirm c = true) (margin : List Char) (start : Bool)
    (front rest : List Char) : settled margin start (front ++ c :: rest) =
      settled margin start (front ++ [c]) ++ settled margin (isLineBreak c) rest := by
  obtain ⟨settledFront, same⟩ := exists_settled_append firm margin start front
  have alone : settled margin start (front ++ [c]) = settledFront ++ [c] := same []
  rw [same, alone, List.append_assoc, List.singleton_append]

def isInline (c : Char) : Bool := c != '\r' && c != '\n'

/-- The text with the margin behind every character that ends a line. -/
def interrupted (margin text : List Char) : List Char :=
  text.flatMap fun c => c :: if isLineBreak c then margin else []

theorem indentFrom_inline (margin : List Char) (start : Bool) {text : List Char}
    (inline : text.all isInline = true) {last : Char} (lastInline : isInline last = true)
    (rest : List Char) :
    indentFrom margin start (text ++ last :: rest) =
      (if start then margin else []) ++ interrupted margin text ++
        last :: indentFrom margin (isLineBreak last) rest := by
  induction text generalizing start with
  | nil =>
      simp only [isInline, Bool.and_eq_true, bne_iff_ne] at lastInline
      simp [indentFrom, interrupted, lastInline]
  | cons c text ih =>
      simp only [List.all_cons, isInline, Bool.and_eq_true, bne_iff_ne] at inline
      obtain ⟨⟨noReturn, noFeed⟩, others⟩ := inline
      rw [List.cons_append, indentFrom, ih (isLineBreak c) others]
      simp [interrupted, noReturn, noFeed]

/-- A line feed gets no margin, and starts a line. -/
theorem indentFrom_feed (margin : List Char) (start : Bool) (rest : List Char) :
    indentFrom margin start ('\n' :: rest) = '\n' :: indentFrom margin true rest := by
  have feed : isLineBreak '\n' = true := by decide
  rw [indentFrom, feed]
  simp

theorem unifyBreaks_inline {text : List Char} (inline : text.all isInline = true)
    (rest : List Char) : unifyBreaks (text ++ rest) = text ++ unifyBreaks rest := by
  induction text with
  | nil => rfl
  | cons c text ih =>
      simp only [List.all_cons, isInline, Bool.and_eq_true, bne_iff_ne] at inline
      obtain ⟨⟨noReturn, _⟩, others⟩ := inline
      rw [List.cons_append, unifyBreaks_cons fun _ same => absurd same noReturn, ih others,
        if_neg (by simpa using noReturn), List.cons_append]

theorem trimLineEnds_inline {text : List Char} (inline : text.all isInline = true) {last : Char}
    (ink : isPad last = false) (lastInline : isInline last = true) (rest : List Char) :
    trimLineEnds (text ++ last :: rest) = text ++ last :: trimLineEnds rest := by
  induction text with
  | nil =>
      rw [List.nil_append, trimLineEnds, ink, Bool.false_and, if_neg Bool.false_ne_true]
      rfl
  | cons c text ih =>
      rw [List.all_cons, Bool.and_eq_true] at inline
      have next : (text ++ last :: trimLineEnds rest).isEmpty = false ∧
          ((text ++ last :: trimLineEnds rest).head? == some '\n') = false := by
        cases text with
        | nil =>
            rw [isInline, Bool.and_eq_true, bne_iff_ne, bne_iff_ne] at lastInline
            exact ⟨rfl, beq_eq_false_iff_ne.2 fun same => lastInline.2 (Option.some.inj same)⟩
        | cons d text =>
            have second := (List.all_cons ▸ inline.2 : (isInline d && _) = true)
            rw [isInline, Bool.and_eq_true, Bool.and_eq_true, bne_iff_ne, bne_iff_ne] at second
            exact ⟨rfl, beq_eq_false_iff_ne.2 fun same => second.1.2 (Option.some.inj same)⟩
      rw [List.cons_append, trimLineEnds, ih inline.2]
      simp only [next, Bool.or_self, Bool.and_false]
      rfl

/-- A text without line feeds and carriage returns as it comes out: stray controls are gone, and
the margin stands behind every other character that ends a line. -/
def carried (margin text : List Char) : List Char :=
  text.flatMap fun c =>
    (if isStrayControl c then [] else [c]) ++ if isLineBreak c then margin else []

theorem all_flatten_replicate {p : Char → Bool} {unit : List Char} (all : unit.all p = true)
    (n : Nat) : (List.replicate n unit).flatten.all p = true := by
  rw [List.all_flatten, List.all_eq_true]
  intro copy member
  rw [List.eq_of_mem_replicate member]
  exact all

theorem filter_of_all_isPad {margin : List Char} (blank : margin.all isPad = true) :
    margin.filter (!isStrayControl ·) = margin := by
  refine List.filter_eq_self.2 fun c member => ?_
  have pad := List.all_eq_true.1 blank c member
  simp only [isPad, Bool.or_eq_true, beq_iff_eq] at pad
  rcases pad with rfl | rfl
  · decide
  · decide

theorem filter_interrupted {margin : List Char} (blank : margin.all isPad = true)
    (text : List Char) :
    (interrupted margin text).filter (!isStrayControl ·) = carried margin text := by
  induction text with
  | nil => rfl
  | cons c text ih =>
      rw [interrupted, carried, List.flatMap_cons, List.flatMap_cons, List.filter_append,
        ← interrupted, ← carried, ih, List.filter_cons]
      cases isStrayControl c <;> cases isLineBreak c <;> simp [filter_of_all_isPad blank]

/-- Without a margin nothing happens but that stray controls are taken out. -/
theorem filter_eq_carried (text : List Char) :
    text.filter (!isStrayControl ·) = carried [] text := by
  induction text with
  | nil => rfl
  | cons c text ih =>
      rw [carried, List.flatMap_cons, ← carried, ← ih, List.filter_cons]
      cases isStrayControl c <;> simp

/-- A character of a class that holds neither line feed nor carriage return. -/
theorem isInline_of_class {p : Char → Bool} (noReturn : p '\r' = false) (noFeed : p '\n' = false)
    {c : Char} (member : p c = true) : isInline c = true := by
  rw [isInline, Bool.and_eq_true, bne_iff_ne, bne_iff_ne]
  constructor
  · rintro rfl
    rw [noReturn] at member
    cases member
  · rintro rfl
    rw [noFeed] at member
    cases member

theorem all_isInline_of_all_isPad {margin : List Char} (blank : margin.all isPad = true) :
    margin.all isInline = true :=
  List.all_eq_true.2 fun c member =>
    isInline_of_class (p := isPad) rfl rfl (List.all_eq_true.1 blank c member)

theorem all_isInline_interrupted {margin text : List Char} (blank : margin.all isPad = true)
    (inline : text.all isInline = true) : (interrupted margin text).all isInline = true := by
  rw [interrupted, List.all_flatMap]
  refine List.all_eq_true.2 fun c member => ?_
  rw [List.all_cons, List.all_eq_true.1 inline c member, Bool.true_and]
  split
  · exact all_isInline_of_all_isPad blank
  · rfl

/-- Lines are settled as they are up to a firm character, where neither line feeds nor carriage
returns stand. -/
theorem settleLines_inline {text : List Char} (inline : text.all isInline = true) {last : Char}
    (firm : isFirm last = true) (lastInline : isInline last = true) (rest : List Char) :
    settleLines (text ++ last :: rest) =
      text.filter (!isStrayControl ·) ++ last :: settleLines rest := by
  simp only [isFirm, Bool.and_eq_true, Bool.not_eq_true', bne_iff_ne] at firm
  obtain ⟨⟨solid, ink⟩, plain⟩ := firm
  have kept : (!isStrayControl last) = true := by rw [plain]; rfl
  have written : (text.filter (!isStrayControl ·)).all isInline = true :=
    List.all_eq_true.2 fun c member => List.all_eq_true.1 inline c (List.mem_filter.1 member).1
  rw [settleLines, unifyBreaks_inline inline, unifyBreaks_cons fun _ same => absurd same solid,
    if_neg (by simpa using solid), List.filter_append,
    List.filter_cons_of_pos (p := (!isStrayControl ·)) kept,
    trimLineEnds_inline written ink lastInline]
  rfl

@[simp] theorem carried_append (margin text rest : List Char) :
    carried margin (text ++ rest) = carried margin text ++ carried margin rest :=
  List.flatMap_append

theorem carried_joined (margin separator : List Char) (parts : List (List Char)) :
    carried margin (joined separator parts) =
      joined (carried margin separator) (parts.map (carried margin)) := by
  induction parts with
  | nil => rfl
  | cons part parts ih =>
      cases parts with
      | nil => rfl
      | cons second others =>
          rw [joined_cons_of_ne_nil _ _ (List.cons_ne_nil _ _), carried_append, carried_append, ih]
          rfl

/-- A firm character that ends no line is carried over. -/
theorem carried_singleton {c : Char} (firm : isFirm c = true) (inside : isLineBreak c = false)
    (margin : List Char) : carried margin [c] = [c] := by
  simp only [isFirm, Bool.and_eq_true, Bool.not_eq_true'] at firm
  simp [carried, firm.2, inside]

/-- Up to a firm character that ends no line, a text without line feeds and carriage returns is
carried over, behind the margin when it starts a line. -/
theorem settled_inline {margin : List Char} (blank : margin.all isPad = true) {text : List Char}
    (inline : text.all isInline = true) {last : Char} (firm : isFirm last = true)
    (inside : isLineBreak last = false) (start : Bool) (rest : List Char) :
    settled margin start (text ++ last :: rest) =
      (if start then margin else []) ++ carried margin (text ++ [last]) ++
        settled margin false rest := by
  obtain ⟨noReturn, noFeed⟩ := ne_feed_of_not_isLineBreak (Bool.eq_false_iff.1 inside)
  have lastInline : isInline last = true := by simp [isInline, noReturn, noFeed]
  have lead : (if start then margin else []).all isPad = true := by
    split
    · exact blank
    · rfl
  rw [settled, indentFrom_inline margin start inline lastInline, inside]
  -- Behind the margin, or behind nothing, the rest of the line is settled in the same way.
  generalize (if start then margin else []) = indentation at lead ⊢
  have raw : (indentation ++ interrupted margin text).all isInline = true := by
    rw [List.all_append, all_isInline_of_all_isPad lead, all_isInline_interrupted blank inline]
    rfl
  rw [settleLines_inline raw firm lastInline, List.filter_append, filter_of_all_isPad lead,
    filter_interrupted blank, carried_append, carried_singleton firm inside, List.append_assoc,
    List.append_assoc, List.append_assoc]
  rfl

/-- A firm character at the start stays there. -/
theorem settleLines_cons {c : Char} (firm : isFirm c = true) (rest : List Char) :
    settleLines (c :: rest) = c :: settleLines rest := by
  simp only [isFirm, Bool.and_eq_true, Bool.not_eq_true', bne_iff_ne] at firm
  obtain ⟨⟨solid, ink⟩, plain⟩ := firm
  have kept : (!isStrayControl c) = true := by rw [plain]; rfl
  rw [settleLines, unifyBreaks_cons fun _ same => absurd same solid,
    if_neg (by simpa using solid), List.filter_cons_of_pos (p := (!isStrayControl ·)) kept,
    trimLineEnds, ink, Bool.false_and, if_neg Bool.false_ne_true]
  rfl

/-- A firm character inside a line stays there. -/
theorem settled_cons {c : Char} (firm : isFirm c = true) (margin rest : List Char) :
    settled margin false (c :: rest) = c :: settled margin (isLineBreak c) rest := by
  rw [settled, indentFrom, Bool.false_and, if_neg Bool.false_ne_true, List.nil_append,
    settleLines_cons firm]
  rfl

theorem settled_feed (margin : List Char) (start : Bool) (rest : List Char) :
    settled margin start ('\n' :: rest) = '\n' :: settled margin true rest := by
  rw [settled, indentFrom_feed, settleLines_cons (by decide)]
  rfl

/-! ## Ends of lines -/

/-- Trimming the end drops all members behind one that stays if they satisfy the test. -/
theorem dropEndWhile_append_of_all {α : Type} {p : α → Bool} (init : List α) {rest : List α}
    (dropped : rest.all p = true) : dropEndWhile p (init ++ rest) = dropEndWhile p init := by
  induction rest generalizing init with
  | nil => rw [List.append_nil]
  | cons a rest ih =>
      rw [List.all_cons, Bool.and_eq_true] at dropped
      rw [List.append_cons, ih _ dropped.2, dropEndWhile_concat_of_pos init dropped.1]

theorem mem_of_mem_dropEndWhile {α : Type} {p : α → Bool} {a : α} {list : List α}
    (member : a ∈ dropEndWhile p list) : a ∈ list := by
  induction list with
  | nil => cases member
  | cons b rest ih =>
      rw [dropEndWhile] at member
      split at member
      next =>
        split at member
        · cases member
        · rw [List.mem_singleton.1 member]
          exact .head _
      next =>
        rcases List.mem_cons.1 member with rfl | later
        · exact .head _
        · exact .tail _ (ih later)

/-- A line loses the spaces and tabs at its end. -/
theorem trimLineEnds_feed {text : List Char} (inline : text.all isInline = true)
    (rest : List Char) :
    trimLineEnds (text ++ '\n' :: rest) = dropEndWhile isPad text ++ '\n' :: trimLineEnds rest := by
  induction text with
  | nil => rfl
  | cons c text ih =>
      rw [List.all_cons, Bool.and_eq_true] at inline
      rw [List.cons_append, trimLineEnds, ih inline.2, dropEndWhile]
      cases kept : dropEndWhile isPad text with
      | nil => cases isPad c <;> simp
      | cons d more =>
          have inside : d ∈ text := by
            refine mem_of_mem_dropEndWhile (p := isPad) ?_
            rw [kept]
            exact .head _
          have noFeed := List.all_eq_true.1 inline.2 d inside
          rw [isInline, Bool.and_eq_true, bne_iff_ne, bne_iff_ne] at noFeed
          simp [noFeed.2]

/-- A line is settled by itself. -/
theorem settleLines_feed {text : List Char} (inline : text.all isInline = true)
    (rest : List Char) : settleLines (text ++ '\n' :: rest) =
      dropEndWhile isPad (text.filter (!isStrayControl ·)) ++ '\n' :: settleLines rest := by
  have kept : (!isStrayControl '\n') = true := by decide
  have written : (text.filter (!isStrayControl ·)).all isInline = true :=
    List.all_eq_true.2 fun c member => List.all_eq_true.1 inline c (List.mem_filter.1 member).1
  have alone : unifyBreaks ('\n' :: rest) = '\n' :: unifyBreaks rest :=
    unifyBreaks_cons fun _ same => absurd same (by decide)
  rw [settleLines, unifyBreaks_inline inline, alone, List.filter_append,
    List.filter_cons_of_pos (p := (!isStrayControl ·)) kept, trimLineEnds_feed written]
  rfl

/-- Up to a line feed a text without others is carried over, but for the blanks at its end. -/
theorem settled_line {margin : List Char} (blank : margin.all isPad = true) {text : List Char}
    (inline : text.all isInline = true) (rest : List Char) :
    settled margin false (text ++ '\n' :: rest) =
      dropEndWhile isPad (carried margin text) ++ '\n' :: settled margin true rest := by
  rcases List.eq_nil_or_concat text with rfl | ⟨front, last, rfl⟩
  · exact settled_feed margin false rest
  · rw [List.concat_eq_append] at inline ⊢
    rw [List.all_append, Bool.and_eq_true] at inline
    have lastInline : isInline last = true := by simpa using inline.2
    have raw : (interrupted margin front ++ [last]).all isInline = true := by
      rw [List.all_append, all_isInline_interrupted blank inline.1, inline.2]
      rfl
    -- The margin behind a last character that ends a line is not there, or trimmed off.
    have lead : (if isLineBreak last then margin else []).all isPad = true := by
      split
      · exact blank
      · rfl
    calc
      _ = settleLines ((interrupted margin front ++ [last]) ++
            '\n' :: indentFrom margin true rest) := by
          rw [settled, List.append_assoc, List.singleton_append,
            indentFrom_inline margin false inline.1 lastInline, indentFrom_feed]
          simp
      _ = dropEndWhile isPad (carried margin front ++ [last].filter (!isStrayControl ·)) ++
            '\n' :: settled margin true rest := by
          rw [settleLines_feed raw, List.filter_append, filter_interrupted blank]
          rfl
      _ = dropEndWhile isPad (carried margin front ++ [last].filter (!isStrayControl ·) ++
            if isLineBreak last then margin else []) ++ '\n' :: settled margin true rest := by
          rw [dropEndWhile_append_of_all _ lead]
      _ = _ := by
          rw [carried_append, List.append_assoc]
          cases stray : isStrayControl last <;> simp [carried, stray]

/-! ## Trimming both ends -/

/-- Trimming goes on both sides of a character other than a line feed. -/
theorem trimBreaks_append_cons {c : Char} (ink : c ≠ '\n') (front rest : List Char) :
    trimBreaks (front ++ c :: rest) =
      front.dropWhile (· == '\n') ++ c :: dropEndWhile (· == '\n') rest := by
  have dropped : (front ++ c :: rest).dropWhile (· == '\n') =
      front.dropWhile (· == '\n') ++ c :: rest := by
    rw [List.dropWhile_append, List.dropWhile_cons_of_neg (by simpa using ink)]
    split
    next empty => rw [List.isEmpty_iff.1 empty, List.nil_append]
    next => rfl
  rw [trimBreaks, dropped, dropEndWhile_append_cons (by simpa using ink)]

/-- A text between two other characters than line feeds is not trimmed. -/
theorem trimBreaks_eq_self {text : List Char} (opens : text.head?.all (· != '\n') = true)
    (closes : text.getLast?.all (· != '\n') = true) : trimBreaks text = text := by
  have kept : text.dropWhile (· == '\n') = text := by
    cases text with
    | nil => rfl
    | cons c rest => exact List.dropWhile_cons_of_neg (by simpa using opens)
  rw [trimBreaks, kept]
  rcases List.eq_nil_or_concat text with rfl | ⟨front, c, rfl⟩
  · rfl
  · rw [List.concat_eq_append, List.getLast?_concat] at closes
    rw [List.concat_eq_append]
    exact dropEndWhile_append_cons (by simpa using closes) front []

end PhpDecl.Text

namespace PhpDecl

/-- The margin of a level is made of the characters of the unit. -/
theorem Layout.all_margin {p : Char → Bool} (layout : Layout) (all : layout.unit.all p = true)
    (level : Nat) : (layout.margin level).all p = true := by
  rw [margin_eq_flatten]
  exact Text.all_flatten_replicate all level

end PhpDecl
