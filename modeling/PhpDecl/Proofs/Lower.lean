import PhpDecl.Name
import PhpDecl.Text.Lower

/-!
# Lower case, segment by segment

The separator of names is its own lower case, is that of no other character, and hides what
stands on one side of it from the other. So the lower case of a name is that of its segments.
-/

namespace PhpDecl.Text

open Name

theorem caseIgnorable_separator : inRanges caseIgnorableRanges separator = false := by
  decide +kernel

theorem cased_separator : inRanges casedRanges separator = false := by decide

theorem lowerChar_separator : lowerChar separator = [separator] := by decide

/-- A separator stays, and what follows it is lowered as at the start of a text. -/
theorem lowerAfter_separator (afterCased : Bool) (rest : List Char) :
    lowerAfter afterCased (separator :: rest) = separator :: lower rest := by
  have sigma : (separator.toNat == 0x3a3) = false := by decide
  simp [lowerAfter, sigma, caseIgnorable_separator, cased_separator, lowerChar_separator, lower]

theorem casedNext_append_separator (text rest : List Char) :
    casedNext (text ++ separator :: rest) = casedNext text := by
  induction text with
  | nil => simp [casedNext, caseIgnorable_separator, cased_separator]
  | cons c text ih => simp [casedNext, ih]

theorem lowerAfter_append_separator (afterCased : Bool) (text rest : List Char) :
    lowerAfter afterCased (text ++ separator :: rest) =
      lowerAfter afterCased text ++ separator :: lower rest := by
  induction text generalizing afterCased with
  | nil => exact lowerAfter_separator afterCased rest
  | cons c text ih => simp [lowerAfter, ih, casedNext_append_separator]

/-- The lower case of a name is made of the lower cases of what stands around a separator. -/
theorem lower_append_separator (text rest : List Char) :
    lower (text ++ separator :: rest) = lower text ++ separator :: lower rest :=
  lowerAfter_append_separator false text rest

/-! ## What is lowered to a separator -/

/-- No character of the table is lowered to a separator: all of them lie behind it. -/
theorem separator_lt_of_mem_lowerRanges :
    ∀ range ∈ lowerRanges, (separator.toNat : Int) < range.first + range.shift := by
  decide +kernel

theorem ofNat_ne_separator {n : Nat} (behind : separator.toNat < n) : Char.ofNat n ≠ separator := by
  intro same
  by_cases valid : n.isValidChar
  · have number : (Char.ofNat n).toNat = n := by
      rw [Char.ofNat, dif_pos valid]
      rfl
    rw [same] at number
    omega
  · rw [Char.ofNat, dif_neg valid] at same
    exact absurd same (by decide)

theorem lowerChar_ne_nil (c : Char) : lowerChar c ≠ [] := by
  unfold lowerChar
  split
  · simp
  · split <;> simp

theorem eq_separator_of_head?_lowerChar {c : Char}
    (h : (lowerChar c).head? = some separator) : c = separator := by
  unfold lowerChar at h
  split at h
  · exact absurd h (by decide)
  · split at h
    next range found =>
      have member := List.mem_of_find?_eq_some found
      have inside := List.find?_some found
      have behind := separator_lt_of_mem_lowerRanges range member
      simp only [LowerRange.contains, Bool.and_eq_true, decide_eq_true_eq] at inside
      exact absurd (Option.some.inj h) (ofNat_ne_separator (by omega))
    next => exact Option.some.inj h

/-- Only a separator is lowered to a separator. -/
theorem eq_separator_of_head?_lowerAfter {afterCased : Bool} {c : Char} {rest : List Char}
    (h : (lowerAfter afterCased (c :: rest)).head? = some separator) : c = separator := by
  rw [lowerAfter] at h
  split at h
  next =>
    have other : Char.ofNat (if (afterCased && !casedNext rest) = true then 0x3c2 else 0x3c3) ≠
        separator := by
      split <;> decide
    exact absurd (Option.some.inj h) other
  next =>
    obtain ⟨first, others, split⟩ := List.exists_cons_of_ne_nil (lowerChar_ne_nil c)
    rw [split, List.cons_append, List.head?_cons] at h
    exact eq_separator_of_head?_lowerChar (split ▸ h)

/-- How long the lower case of a text is does not depend on what stands around it. -/
theorem exists_lowerAfter_append (afterCased : Bool) (text rest : List Char) :
    ∃ front cased, lowerAfter afterCased (text ++ rest) = front ++ lowerAfter cased rest ∧
      front.length = (lowerAfter afterCased text).length := by
  induction text generalizing afterCased with
  | nil => exact ⟨[], afterCased, rfl, rfl⟩
  | cons c text ih =>
      simp only [List.cons_append, lowerAfter]
      obtain ⟨front, cased, split, same⟩ :=
        ih (if inRanges caseIgnorableRanges c then afterCased else inRanges casedRanges c)
      rw [split, ← List.append_assoc]
      refine ⟨_, cased, rfl, ?_⟩
      rw [List.length_append, List.length_append, same]
      split <;> rfl

theorem lowerAfter_cons_ne_nil (afterCased : Bool) (c : Char) (rest : List Char) :
    lowerAfter afterCased (c :: rest) ≠ [] := by
  rw [lowerAfter]
  intro empty
  rw [List.append_eq_nil_iff] at empty
  split at empty
  · cases empty.1
  · exact lowerChar_ne_nil c empty.1

/-- A text that goes on behind a prefix, up to the case of letters, goes on with a separator if
a separator follows the prefix. -/
theorem exists_separator_of_start {original front tail : List Char} {c : Char}
    {rest : List Char} (same : (lower front).length = (lower original).length)
    (starts : lower original ++ [separator] <+: lower (front ++ c :: rest) ++ tail) :
    c = separator := by
  obtain ⟨first, cased, split, length⟩ := exists_lowerAfter_append false front (c :: rest)
  obtain ⟨more, whole⟩ := starts
  have front_length : (lower original).length = first.length := by
    rw [length, ← same, lower]
  rw [show lower (front ++ c :: rest) = _ from split, List.append_assoc, List.append_assoc] at whole
  have behind := (List.append_inj whole front_length).2
  obtain ⟨d, others, lowered⟩ := List.exists_cons_of_ne_nil (lowerAfter_cons_ne_nil cased c rest)
  rw [lowered, List.cons_append, List.cons_append, List.cons.injEq] at behind
  refine eq_separator_of_head?_lowerAfter (?_ : (lowerAfter cased (c :: rest)).head? = _)
  rw [lowered, List.head?_cons, behind.1]

/-! ## The dotted capital I -/

/-- A text without the one character that has a longer lower case. -/
def Undotted (text : List Char) : Prop := ∀ c ∈ text, c.toNat ≠ 0x130

instance (text : List Char) : Decidable (Undotted text) :=
  List.decidableBAll (fun c : Char => c.toNat ≠ 0x130) text

/-- Without the dotted capital I the lower case of a text is as long as the text. -/
theorem length_lowerAfter {text : List Char} (undotted : Undotted text) (afterCased : Bool) :
    (lowerAfter afterCased text).length = text.length := by
  induction text generalizing afterCased with
  | nil => rfl
  | cons c text ih =>
      have single : (lowerChar c).length = 1 := by
        have other : (c.toNat == 0x130) = false :=
          beq_eq_false_iff_ne.2 (undotted c List.mem_cons_self)
        rw [lowerChar, other, if_neg Bool.false_ne_true]
        split <;> rfl
      have rest := ih fun d member => undotted d (List.mem_cons_of_mem _ member)
      rw [lowerAfter, List.length_append, rest, List.length_cons]
      split
      · rw [List.length_singleton, Nat.add_comm]
      · rw [single, Nat.add_comm]

theorem length_lower {text : List Char} (undotted : Undotted text) :
    (lower text).length = text.length := length_lowerAfter undotted false

end PhpDecl.Text
