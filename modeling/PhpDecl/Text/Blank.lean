/-!
# Blank characters and trimming

Texts are lists of characters, so that every function on them is a recursion a proof can
follow. This module fixes which characters count as blank and trims them off both ends.
-/

namespace PhpDecl.Text

/-- The blank characters: the ASCII controls that move the cursor or separate records, the
space, and the spaces and separators of the rest of Unicode. -/
def isBlank (c : Char) : Bool :=
  let n := c.toNat
  (9 ≤ n && n ≤ 13) || (0x1c ≤ n && n ≤ 0x20) || n == 0x85 || n == 0xa0 || n == 0x1680 ||
    (0x2000 ≤ n && n ≤ 0x200a) || n == 0x2028 || n == 0x2029 || n == 0x202f || n == 0x205f ||
    n == 0x3000

/-- Remove the longest run at the end whose members all satisfy `p`. -/
def dropEndWhile {α : Type} (p : α → Bool) : List α → List α
  | [] => []
  | a :: rest =>
      match dropEndWhile p rest with
      | [] => if p a then [] else [a]
      | kept => a :: kept

def trimStart (text : List Char) : List Char := text.dropWhile isBlank

def trimEnd (text : List Char) : List Char := dropEndWhile isBlank text

def trim (text : List Char) : List Char := trimEnd (trimStart text)

/-- Trimming the end stops at a member that stays. -/
theorem dropEndWhile_append_cons {α : Type} {p : α → Bool} {a : α} (kept : p a = false)
    (init rest : List α) :
    dropEndWhile p (init ++ a :: rest) = init ++ a :: dropEndWhile p rest := by
  induction init with
  | nil =>
      rw [List.nil_append, dropEndWhile, kept, if_neg Bool.false_ne_true]
      cases dropEndWhile p rest <;> rfl
  | cons b init ih =>
      rw [List.cons_append, dropEndWhile, ih]
      cases init <;> rfl

/-- Trimming the end drops a last member that satisfies the test, and goes on before it. -/
theorem dropEndWhile_concat_of_pos {α : Type} {p : α → Bool} {a : α} (init : List α)
    (dropped : p a = true) : dropEndWhile p (init ++ [a]) = dropEndWhile p init := by
  induction init with
  | nil => simp [dropEndWhile, dropped]
  | cons b rest ih => rw [List.cons_append, dropEndWhile, ih, dropEndWhile]

/-- Every ASCII blank is a blank. -/
theorem isBlank_of_isWhitespace {c : Char} (h : c.isWhitespace = true) : isBlank c = true := by
  simp only [Char.isWhitespace, Bool.or_eq_true, decide_eq_true_eq] at h
  rcases h with ((rfl | rfl) | rfl) | rfl <;> rfl

end PhpDecl.Text
