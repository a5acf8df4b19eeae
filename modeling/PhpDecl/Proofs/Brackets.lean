import PhpDecl.Proofs.Lines
import PhpDecl.Proofs.Literals

/-!
# Brackets and indentation

A scanner goes over a text and counts the brackets that are open, passing over those in quoted
strings. A line is indented by nesting when it starts with as many units as brackets are open in
front of it, a closing one that it starts with counted off (`Brackets.StartsLine`). That all lines
of a text are, is put together from the pieces of the text by two rules: one for a line feed with
the margin behind it, and one for a text in front of another, where what is carried along is the
number of open brackets.
-/

namespace PhpDecl.Text

/-- The brackets that are counted. -/
inductive Brackets
  | square
  /-- The square ones and the round ones. -/
  | every
  deriving DecidableEq

/-- Where a text breaks off: in code, in a quoted string, or in one behind a backslash. -/
inductive ScanMode
  | code
  | quoted (quote : Char)
  | escaped (quote : Char)
  deriving DecidableEq

structure Scan where
  mode : ScanMode
  opened : Nat
  deriving DecidableEq

namespace Brackets

def opens : Brackets → Char → Bool
  | square, c => c == '['
  | every, c => c == '[' || c == '('

def closes : Brackets → Char → Bool
  | square, c => c == ']'
  | every, c => c == ']' || c == ')'

/-- A backslash takes the meaning from the character behind it, in a string of either quotes. -/
def step (brackets : Brackets) (scan : Scan) (c : Char) : Scan :=
  match scan.mode with
  | .code =>
      if c == '\'' || c == '"' then ⟨.quoted c, scan.opened⟩
      else if brackets.opens c then ⟨.code, scan.opened + 1⟩
      else if brackets.closes c then ⟨.code, scan.opened - 1⟩
      else scan
  | .quoted quote =>
      if c == '\\' then ⟨.escaped quote, scan.opened⟩
      else if c == quote then ⟨.code, scan.opened⟩
      else scan
  | .escaped quote => ⟨.quoted quote, scan.opened⟩

def scan (brackets : Brackets) (start : Scan) (text : List Char) : Scan :=
  text.foldl brackets.step start

/-- How many brackets are still open behind a text. -/
def openBehind (brackets : Brackets) (text : List Char) : Nat :=
  (brackets.scan ⟨.code, 0⟩ text).opened

/-- The line starts with as many units as brackets are open in front of it, one fewer when a
closing bracket comes next, and goes on with neither a space nor a tab. -/
def StartsLine (brackets : Brackets) (unit : List Char) (opened : Nat) (line : List Char) : Prop :=
  ∃ c rest, isPad c = false ∧ c ≠ '\n' ∧
    line = (List.replicate (opened - (brackets.closes c).toNat) unit).flatten ++ c :: rest

variable {brackets : Brackets} {first second text unit : List Char} {depth : Nat → Nat}
  {n m : Nat}

@[simp] theorem scan_nil (start : Scan) : brackets.scan start [] = start := rfl

@[simp] theorem scan_cons (start : Scan) (c : Char) (rest : List Char) :
    brackets.scan start (c :: rest) = brackets.scan (brackets.step start c) rest := rfl

theorem scan_append (start : Scan) (first second : List Char) :
    brackets.scan start (first ++ second) = brackets.scan (brackets.scan start first) second :=
  List.foldl_append

@[simp] theorem step_opening (brackets : Brackets) (n : Nat) :
    brackets.step ⟨.code, n⟩ '[' = ⟨.code, n + 1⟩ := by
  cases brackets <;> rfl

@[simp] theorem step_closing (brackets : Brackets) (n : Nat) :
    brackets.step ⟨.code, n⟩ ']' = ⟨.code, n - 1⟩ := by
  cases brackets <;> rfl

/-! ## Balanced texts -/

/-- The text closes the brackets that it opens, and no others, and ends no string that it has not
started. -/
def Balanced (brackets : Brackets) (text : List Char) : Prop :=
  ∀ n, brackets.scan ⟨.code, n⟩ text = ⟨.code, n⟩

theorem Balanced.append (one : brackets.Balanced first) (two : brackets.Balanced second) :
    brackets.Balanced (first ++ second) := fun n => by
  rw [scan_append, one, two]

theorem Balanced.enclosed (inside : brackets.Balanced text) :
    brackets.Balanced ('[' :: text ++ [']']) := fun n => by
  rw [scan_append, scan_cons _ '[', step_opening, inside, scan_cons, step_closing]
  rfl

/-- A closing bracket in front would close one that the text has not opened. -/
theorem Balanced.closes_head {c : Char} (balanced : brackets.Balanced (c :: text)) :
    brackets.closes c = false := by
  refine Bool.eq_false_iff.2 fun closes => ?_
  have none := balanced 0
  have one := balanced 1
  have steps (n : Nat) : brackets.step ⟨.code, n⟩ c = ⟨.code, n - 1⟩ := by
    cases brackets with
    | square =>
        obtain rfl : c = ']' := by simpa [Brackets.closes] using closes
        rfl
    | every =>
        obtain rfl | rfl : c = ']' ∨ c = ')' := by simpa [Brackets.closes] using closes
        · rfl
        · rfl
  rw [scan_cons, steps] at none one
  -- Behind the bracket there is nothing to tell the two runs apart.
  cases none.symm.trans one

/-- A character that neither starts a string nor is a bracket. -/
def isNeutral (c : Char) : Bool := !(['\'', '"', '[', ']', '(', ')'].contains c)

theorem step_neutral {c : Char} (neutral : isNeutral c = true) (n : Nat) :
    brackets.step ⟨.code, n⟩ c = ⟨.code, n⟩ := by
  simp only [isNeutral, List.contains_cons, List.contains_nil, Bool.or_false, Bool.not_eq_true',
    Bool.or_eq_false_iff, beq_eq_false_iff_ne] at neutral
  cases brackets <;> simp [step, opens, closes, neutral]

theorem balanced_of_neutral (neutral : text.all isNeutral = true) : brackets.Balanced text := by
  induction text with
  | nil => exact fun n => rfl
  | cons c text ih =>
      rw [List.all_cons, Bool.and_eq_true] at neutral
      intro n
      rw [scan_cons, step_neutral neutral.1, ih neutral.2]

/-- Where no special character is in a class, no character of the class is special. -/
theorem contains_of_class {p : Char → Bool} {special : List Char}
    (others : special.all (!p ·) = true) {c : Char} (member : p c = true) :
    special.contains c = false := by
  refine Bool.eq_false_iff.2 fun listed => ?_
  have outside := List.all_eq_true.1 others c (List.contains_iff_mem.1 listed)
  rw [member] at outside
  cases outside

theorem isNeutral_of_class {p : Char → Bool}
    (others : ['\'', '"', '[', ']', '(', ')'].all (!p ·) = true) {c : Char} (member : p c = true) :
    isNeutral c = true := by
  rw [isNeutral, contains_of_class others member]
  rfl

theorem balanced_of_all_isPad (blank : text.all isPad = true) : brackets.Balanced text :=
  balanced_of_neutral <| List.all_eq_true.2 fun c member =>
    isNeutral_of_class (p := isPad) (by decide) (List.all_eq_true.1 blank c member)

/-! ## Quoted strings -/

theorem scan_single (n : Nat) (content : List Char) :
    brackets.scan ⟨.quoted '\'', n⟩ (Quoted.single content) = ⟨.quoted '\'', n⟩ := by
  fun_induction Quoted.single content with
  | case1 => rfl
  | case2 rest ih => exact ih
  | case3 => rfl
  | case4 next others _ ih => exact ih
  | case5 next others stays ih =>
      simp only [Bool.or_eq_true, beq_iff_eq, not_or] at stays
      obtain ⟨quote, slash⟩ := stays
      -- The backslash is not escaped, so what follows it has to be written as it is.
      have written : Quoted.single (next :: others) = next :: Quoted.single others := by
        rw [Quoted.single] <;> simpa
      have steps : brackets.step ⟨.quoted '\'', n⟩ next = ⟨.quoted '\'', n⟩ := by
        simp [step, quote, slash]
      rw [written, scan_cons, steps] at ih
      rw [written]
      exact ih
  | case6 c rest quote slash ih =>
      have steps : brackets.step ⟨.quoted '\'', n⟩ c = ⟨.quoted '\'', n⟩ := by
        simp [step, show c ≠ '\'' from quote, show c ≠ '\\' from slash]
      rw [scan_cons, steps, ih]

/-- A character that neither ends a double-quoted string nor escapes another. -/
def isInert (c : Char) : Bool := c != '"' && c != '\\'

theorem scan_inert (n : Nat) (inert : text.all isInert = true) :
    brackets.scan ⟨.quoted '"', n⟩ text = ⟨.quoted '"', n⟩ := by
  induction text with
  | nil => rfl
  | cons c text ih =>
      rw [List.all_cons, Bool.and_eq_true, isInert, Bool.and_eq_true, bne_iff_ne,
        bne_iff_ne] at inert
      have steps : brackets.step ⟨.quoted '"', n⟩ c = ⟨.quoted '"', n⟩ := by
        simp [step, inert.1.1, inert.1.2]
      rw [scan_cons, steps, ih inert.2]

/-- What stands for one character: that character, or a backslash with what it escapes. -/
def isUnit : List Char → Bool
  | '\\' :: _ :: rest => rest.all isInert
  | text => text.all isInert

theorem scan_of_isUnit (n : Nat) (unit : isUnit text = true) :
    brackets.scan ⟨.quoted '"', n⟩ text = ⟨.quoted '"', n⟩ := by
  unfold isUnit at unit
  split at unit
  next c rest =>
    -- The backslash and what it escapes lead back into the string.
    rw [scan_cons, scan_cons]
    exact scan_inert n unit
  next => exact scan_inert n unit

theorem isUnit_escaped (c : Char) : isUnit (Quoted.escaped c) = true := by
  by_cases high : 0xa0 ≤ c.toNat
  · rw [Quoted.escaped_of_high high]
    have differs (d : Char) (low : d.toNat < 0xa0) : c ≠ d := by
      rintro rfl
      omega
    simp [isUnit, isInert, differs '"' (by decide), differs '\\' (by decide)]
  · exact forall_low (P := fun c => isUnit (Quoted.escaped c) = true) (by decide +kernel)
      (Nat.lt_of_not_le high)

theorem scan_flatMap_escaped (n : Nat) (content : List Char) :
    brackets.scan ⟨.quoted '"', n⟩ (content.flatMap Quoted.escaped) = ⟨.quoted '"', n⟩ := by
  induction content with
  | nil => rfl
  | cons c content ih =>
      rw [List.flatMap_cons, scan_append, scan_of_isUnit n (isUnit_escaped c), ih]

/-- A text that stays inside a string is balanced between its quotes. -/
theorem balanced_of_quoted {quote : Char} (quotes : quote = '\'' ∨ quote = '"')
    (inside : ∀ n, brackets.scan ⟨.quoted quote, n⟩ text = ⟨.quoted quote, n⟩) :
    brackets.Balanced (quote :: text ++ [quote]) := by
  intro n
  have opens : brackets.step ⟨.code, n⟩ quote = ⟨.quoted quote, n⟩ := by
    rcases quotes with rfl | rfl <;> rfl
  have ends : brackets.step ⟨.quoted quote, n⟩ quote = ⟨.code, n⟩ := by
    rcases quotes with rfl | rfl <;> rfl
  rw [scan_append, scan_cons _ quote text, opens, inside, scan_cons, ends, scan_nil]

/-- The brackets of a string are none of the code. -/
theorem balanced_encode (content : List Char) : brackets.Balanced (Quoted.encode content) := by
  rw [Quoted.encode]
  split
  · exact balanced_of_quoted (.inl rfl) fun n => scan_single n content
  · exact balanced_of_quoted (.inr rfl) fun n => scan_flatMap_escaped n content

/-! ## Lines that are indented by nesting -/

theorem StartsLine.append {line : List Char} (starts : brackets.StartsLine unit n line)
    (rest : List Char) : brackets.StartsLine unit n (line ++ rest) := by
  obtain ⟨c, others, ink, inline, rfl⟩ := starts
  exact ⟨c, others ++ rest, ink, inline, by rw [List.append_assoc, List.cons_append]⟩

theorem feed_not_mem_of_all_isPad (blank : text.all isPad = true) : '\n' ∉ text :=
  not_mem_of_all blank (by decide)

/-- The start of a line stands in front of the line feed behind it. -/
theorem StartsLine.of_append {line rest : List Char} (blank : unit.all isPad = true)
    (starts : brackets.StartsLine unit n (line ++ rest))
    (ends : rest = [] ∨ rest.head? = some '\n') :
    brackets.StartsLine unit n line := by
  obtain ⟨c, others, ink, inline, same⟩ := starts
  refine ⟨c, ?_⟩
  rcases ends with rfl | feed
  · exact ⟨others, ink, inline, by rw [← same, List.append_nil]⟩
  · obtain ⟨more, rfl⟩ : ∃ more, rest = '\n' :: more := by
      cases rest with
      | nil => cases feed
      | cons d more => exact ⟨more, by rw [Option.some.inj feed]⟩
    -- Neither the units nor the character behind them are the line feed.
    generalize margin : (List.replicate (n - (brackets.closes c).toNat) unit).flatten = units
      at same ⊢
    have outside : '\n' ∉ units := by
      rw [← margin]
      exact feed_not_mem_of_all_isPad (all_flatten_replicate blank _)
    rcases List.append_eq_append_iff.1 same with ⟨between, rfl, split⟩ | ⟨between, rfl, split⟩
    · cases between with
      | nil =>
          cases split
          exact absurd rfl inline
      | cons d between =>
          cases split
          exact absurd (by simp) outside
    · cases between with
      | nil =>
          cases split
          exact absurd rfl inline
      | cons d between =>
          cases split
          exact ⟨between, ink, inline, rfl⟩

/-- Behind every line feed of a text that is started with `n` brackets open, a line starts that is
indented by nesting, where `depth` tells how many units go with a number of open brackets. -/
def IndentsFrom (brackets : Brackets) (unit : List Char) (depth : Nat → Nat) (n : Nat)
    (text : List Char) : Prop :=
  ∀ before after, text = before ++ '\n' :: after →
    brackets.StartsLine unit (depth (brackets.scan ⟨.code, n⟩ before).opened) after

theorem indentsFrom_of_inline (inline : '\n' ∉ text) :
    brackets.IndentsFrom unit depth n text := by
  rintro before after rfl
  exact absurd (by simp) inline

/-- A text in front of another hands on how many brackets are open. -/
theorem IndentsFrom.append (one : brackets.IndentsFrom unit depth n first)
    (leads : brackets.scan ⟨.code, n⟩ first = ⟨.code, m⟩)
    (two : brackets.IndentsFrom unit depth m second) :
    brackets.IndentsFrom unit depth n (first ++ second) := by
  intro before after same
  rcases List.append_eq_append_iff.1 same with ⟨between, rfl, split⟩ | ⟨between, rfl, split⟩
  · rw [scan_append, leads]
    exact two between after split
  · cases between with
    | nil =>
        rw [List.append_nil] at leads
        rw [leads]
        exact two [] after split.symm
    | cons c between =>
        cases split
        exact (one before between rfl).append second

/-- A line feed with the margin of the line behind it. -/
theorem IndentsFrom.feed {c : Char} {rest : List Char} (blank : unit.all isPad = true)
    (ink : isPad c = false) (inline : c ≠ '\n')
    (line : brackets.IndentsFrom unit depth n (c :: rest)) :
    brackets.IndentsFrom unit depth n
      ('\n' ::
        ((List.replicate (depth n - (brackets.closes c).toNat) unit).flatten ++ c :: rest)) := by
  have margin := all_flatten_replicate blank (depth n - (brackets.closes c).toNat)
  intro before after same
  cases before with
  | nil =>
      cases same
      exact ⟨c, rest, ink, inline, rfl⟩
  | cons d before =>
      obtain ⟨rfl, tail⟩ := List.cons.inj same
      rw [scan_cons, step_neutral (by decide)]
      -- The margin holds no line feed, so the next one stands behind it.
      rcases List.append_eq_append_iff.1 (tail : _ = before ++ '\n' :: after) with
        ⟨between, rfl, split⟩ | ⟨between, split, behind⟩
      · rw [scan_append, balanced_of_all_isPad margin]
        exact line between after split
      · have inside : '\n' ∈ between ∨ between = [] := by
          cases between with
          | nil => exact .inr rfl
          | cons e between => exact .inl (by rw [(List.cons.inj behind).1]; exact .head _)
        rcases inside with member | rfl
        · refine absurd ?_ (feed_not_mem_of_all_isPad margin)
          rw [split]
          exact List.mem_append_right _ member
        · exact absurd (List.cons.inj behind).1.symm inline

/-- A line feed opens and closes nothing, in a string or outside. -/
theorem opened_step_feed (start : Scan) : (brackets.step start '\n').opened = start.opened := by
  obtain ⟨mode, n⟩ := start
  cases mode with
  | code => cases brackets <;> rfl
  | quoted quote =>
      by_cases ends : quote = '\n'
      · rw [ends]
        rfl
      · simp [step, Ne.symm ends]
  | escaped quote => rfl

/-- A text all of whose lines are indented by nesting, the first one perhaps apart. -/
theorem IndentsFrom.startsLine (blank : unit.all isPad = true)
    (indents : brackets.IndentsFrom unit depth 0 text) {front back : List (List Char)}
    {line : List Char} (split : lines text = front ++ line :: back)
    (starts : front = [] → brackets.StartsLine unit (depth 0) text) :
    brackets.StartsLine unit (depth (brackets.openBehind (front.flatMap (· ++ ['\n'])))) line := by
  have whole := eq_of_lines split
  have ends : back.flatMap ('\n' :: ·) = [] ∨ (back.flatMap ('\n' :: ·)).head? = some '\n' := by
    cases back with
    | nil => exact .inl rfl
    | cons => exact .inr rfl
  rcases List.eq_nil_or_concat front with rfl | ⟨init, last, rfl⟩
  · refine StartsLine.of_append blank ?_ ends
    rw [List.flatMap_nil, List.nil_append] at whole
    exact whole ▸ starts rfl
  · rw [List.concat_eq_append, List.flatMap_append, List.flatMap_singleton] at whole ⊢
    have after := indents (init.flatMap (· ++ ['\n']) ++ last)
      (line ++ back.flatMap ('\n' :: ·)) (by rw [whole]; simp only [List.append_assoc,
        List.cons_append, List.nil_append])
    rw [openBehind, ← List.append_assoc, scan_append, scan_cons, scan_nil, opened_step_feed]
    exact after.of_append blank ends

/-- Which lines are indented by nesting can be told at the line feeds or at the lines. -/
theorem indentsFrom_iff_lines (blank : unit.all isPad = true) :
    brackets.IndentsFrom unit depth 0 text ↔ ∀ front line back,
      lines text = front ++ line :: back → front ≠ [] → brackets.StartsLine unit
        (depth (brackets.openBehind (front.flatMap (· ++ ['\n'])))) line := by
  constructor
  · intro indents front line back split some
    exact indents.startsLine blank split fun none => absurd none some
  · rintro each before after rfl
    obtain ⟨line, back, behind⟩ := exists_lines after
    obtain ⟨first, others, inFront⟩ := exists_lines before
    have starts := each (lines before) line back (by rw [lines_append_feed, behind])
      (by rw [inFront]; exact List.cons_ne_nil _ _)
    rw [flatMap_lines, openBehind, scan_append, scan_cons, scan_nil, opened_step_feed] at starts
    rw [eq_append_of_lines behind]
    exact starts.append _

/-- The line goes on behind its units. -/
theorem StartsLine.all_isPad {line : List Char} (starts : brackets.StartsLine unit n line) :
    line.all isPad = false := by
  obtain ⟨c, rest, ink, -, rfl⟩ := starts
  rw [List.all_append, List.all_cons, ink, Bool.false_and, Bool.and_false]

/-- Without units it does not matter how many there are. -/
theorem StartsLine.of_nil {line : List Char} (starts : brackets.StartsLine [] n line) (m : Nat) :
    brackets.StartsLine [] m line := by
  obtain ⟨c, rest, ink, inline, rfl⟩ := starts
  exact ⟨c, rest, ink, inline, by simp⟩

/-- A line tells how many units it starts with. -/
theorem StartsLine.units_eq {line : List Char} (blank : unit.all isPad = true) (some : unit ≠ [])
    (one : brackets.StartsLine unit n line) (two : brackets.StartsLine unit m line) :
    ∃ c, n - (brackets.closes c).toNat = m - (brackets.closes c).toNat := by
  obtain ⟨c, rest, ink, -, same⟩ := one
  obtain ⟨d, others, inkToo, -, sameToo⟩ := two
  have takes (k : Nat) {e : Char} (ink : isPad e = false) (rest : List Char) :
      ((List.replicate k unit).flatten ++ e :: rest).takeWhile isPad =
        (List.replicate k unit).flatten := by
    rw [List.takeWhile_append_of_pos (List.all_eq_true.1 (all_flatten_replicate blank k)),
      List.takeWhile_cons_of_neg (by simp [ink]), List.append_nil]
  have margins := (takes _ ink rest).symm.trans ((congrArg (List.takeWhile isPad)
    (same.symm.trans sameToo)).trans (takes _ inkToo others))
  have heads : c = d := by
    rw [margins] at same
    exact (List.cons.inj (List.append_cancel_left (same.symm.trans sameToo))).1
  subst heads
  refine ⟨c, ?_⟩
  have lengths := congrArg List.length margins
  simp only [List.length_flatten, List.map_replicate, List.sum_replicate_nat] at lengths
  exact Nat.eq_of_mul_eq_mul_right (List.length_pos_iff.2 some) lengths

end Brackets

end PhpDecl.Text
