import PhpDecl.Text.Blank

/-!
# Stripping a text

Trimming takes the characters of a class off the end of a text, or off both ends, and stops at the
first that is not of the class.
-/

namespace PhpDecl.Text

/-- Trimming the end takes off only what satisfies the test, and leaves nothing of it at the end. -/
theorem dropEndWhile_spec {α : Type} (p : α → Bool) (text : List α) :
    (∃ back, text = dropEndWhile p text ++ back ∧ back.all p = true) ∧
      ∀ a ∈ (dropEndWhile p text).getLast?, p a = false := by
  induction text with
  | nil => exact ⟨⟨[], rfl, rfl⟩, fun a none => by cases none⟩
  | cons a rest ih =>
      obtain ⟨⟨back, split, all⟩, last⟩ := ih
      rw [dropEndWhile]
      generalize dropEndWhile p rest = kept at split last
      subst split
      cases kept with
      | cons b kept => exact ⟨⟨back, rfl, all⟩, fun c here => last c (by simpa using here)⟩
      | nil =>
          by_cases drop : p a = true
          · simp only [drop]
            exact ⟨⟨a :: back, rfl, by rw [List.all_cons, drop]; exact all⟩,
              fun c none => by cases none⟩
          · simp only [drop]
            refine ⟨⟨back, rfl, all⟩, fun c here => ?_⟩
            cases here
            exact Bool.eq_false_iff.2 drop

/-- What is left of a text without the blanks in front of it and behind it. -/
structure Stripped (text kept : List Char) : Prop where
  split : ∃ front back, text = front ++ (kept ++ back) ∧ front.all isBlank = true ∧
    back.all isBlank = true
  first : ∀ c ∈ kept.head?, isBlank c = false
  last : ∀ c ∈ kept.getLast?, isBlank c = false

theorem stripped_trim (text : List Char) : Stripped text (trim text) := by
  obtain ⟨⟨back, split, blank⟩, last⟩ := dropEndWhile_spec isBlank (text.dropWhile isBlank)
  refine ⟨⟨text.takeWhile isBlank, back, ?_, List.all_takeWhile, blank⟩, fun c here => ?_, last⟩
  · rw [trim, trimEnd, trimStart, ← split, List.takeWhile_append_dropWhile]
  · have kept : (text.dropWhile isBlank).head? = some c := by
      rw [split, List.head?_append, ← trimEnd, ← trimStart, ← trim, here, Option.some_or]
    have first := List.head?_dropWhile_not isBlank text
    rw [kept] at first
    exact first

theorem Stripped.subset {text kept : List Char} (stripped : Stripped text kept) : kept ⊆ text := by
  obtain ⟨⟨front, back, rfl, -, -⟩, -, -⟩ := stripped
  exact fun c member => List.mem_append_right _ (List.mem_append_left _ member)

theorem Stripped.eq_nil_iff {text kept : List Char} (stripped : Stripped text kept) :
    kept = [] ↔ text.all isBlank = true := by
  obtain ⟨⟨front, back, rfl, blank, alsoBlank⟩, first, -⟩ := stripped
  rw [List.all_append, List.all_append, blank, alsoBlank, Bool.true_and, Bool.and_true]
  cases kept with
  | nil => exact iff_of_true rfl rfl
  | cons c kept => simp [first c rfl]

end PhpDecl.Text
