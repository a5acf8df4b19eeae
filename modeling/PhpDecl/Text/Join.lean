/-!
# Putting texts together
-/

namespace PhpDecl.Text

def joined (separator : List Char) : List (List Char) → List Char
  | [] => []
  | [text] => text
  | text :: rest => text ++ separator ++ joined separator rest

/-- The text when the condition holds, and nothing otherwise. -/
def textIf (condition : Bool) (text : String) : List Char :=
  if condition then text.toList else []

def charsOf (text : Option String) : List Char := (text.map String.toList).getD []

theorem joined_cons_of_ne_nil (separator text : List Char) {rest : List (List Char)}
    (h : rest ≠ []) :
    joined separator (text :: rest) = text ++ separator ++ joined separator rest := by
  cases rest with
  | nil => exact absurd rfl h
  | cons next others => rfl

theorem all_joined {p : Char → Bool} {separator : List Char} (apart : separator.all p = true)
    {parts : List (List Char)} (each : ∀ part ∈ parts, part.all p = true) :
    (joined separator parts).all p = true := by
  induction parts with
  | nil => rfl
  | cons part parts ih =>
      cases parts with
      | nil => exact each part (.head _)
      | cons second others =>
          rw [joined_cons_of_ne_nil _ _ (List.cons_ne_nil _ _), List.all_append, List.all_append,
            each part (.head _), apart, ih fun part member => each part (.tail _ member)]
          rfl

/-- In front of one of the texts that are joined, each has a separator behind it. -/
theorem joined_append_cons (separator part : List Char) (front back : List (List Char)) :
    joined separator (front ++ part :: back) =
      front.flatMap (· ++ separator) ++ joined separator (part :: back) := by
  induction front with
  | nil => rfl
  | cons first front ih =>
      rw [List.cons_append, joined_cons_of_ne_nil _ _ (by simp), ih, List.flatMap_cons]
      simp only [List.append_assoc]

theorem exists_joined_cons (separator part : List Char) (back : List (List Char)) :
    ∃ after, joined separator (part :: back) = part ++ after := by
  cases back with
  | nil => exact ⟨[], (List.append_nil part).symm⟩
  | cons => exact ⟨_, List.append_assoc ..⟩

/-- Each text that is joined stands in front of a separator, or at the end. -/
theorem exists_joined (separator part : List Char) (front back : List (List Char)) :
    ∃ before, joined separator (front ++ part :: back) =
        before ++ part ++ if back.isEmpty then [] else separator ++ joined separator back := by
  refine ⟨front.flatMap (· ++ separator), ?_⟩
  rw [joined_append_cons]
  cases back with
  | nil => simp [joined]
  | cons => simp [joined]

end PhpDecl.Text
