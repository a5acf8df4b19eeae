import PhpDecl.Arena
import PhpDecl.OrderedMap

/-!
# What an arena reads after a change

An object that was added is read behind the next handle, one that was put in place behind its own,
and behind every other handle is what was there before.
-/

namespace PhpDecl.Arena

variable {role : Role} {α β : Type}

@[simp] theorem size_push (arena : Arena role α) (value : α) :
    (arena.push value).size = arena.size + 1 := Array.size_push ..

@[simp] theorem size_set (arena : Arena role α) (h : Handle role) (value : α) :
    (arena.set h value).size = arena.size := Array.size_setIfInBounds

theorem set_push_next (arena : Arena role α) (first second : α) :
    (arena.push first).set arena.next second = arena.push second := by
  obtain ⟨⟨slots⟩⟩ := arena
  simp [push, set, next, size]

theorem set_of_not_has {arena : Arena role α} {h : Handle role} (missing : ¬arena.Has h)
    (value : α) : arena.set h value = arena :=
  congrArg Arena.mk (Array.setIfInBounds_eq_of_size_le (Nat.le_of_not_lt missing))

theorem not_has_next (arena : Arena role α) : ¬arena.Has arena.next := Nat.lt_irrefl _

theorem has_push_next (arena : Arena role α) (value : α) : (arena.push value).Has arena.next := by
  simp [Has, next, size, push]

variable [Inhabited α]

theorem get_of_not_has {arena : Arena role α} {h : Handle role} (missing : ¬arena.Has h) :
    arena.get h = default := by
  have bound : ¬h.index < arena.slots.size := missing
  simp [get, bound]

theorem has_of_get_ne {arena : Arena role α} {h : Handle role}
    (differs : arena.get h ≠ default) : arena.Has h :=
  Classical.byContradiction fun missing => differs (get_of_not_has missing)

/-- The object behind a handle is the one that was added, or an earlier one. -/
theorem get_push (arena : Arena role α) (value : α) (h : Handle role) :
    (arena.push value).get h = if h = arena.next then value else arena.get h := by
  split
  next last => rw [last, get_push_next]
  next other =>
    have differs : h.index ≠ arena.slots.size := fun same => other (by cases h; cases same; rfl)
    simp [get, push, Array.getElem?_push, differs]

/-- The object behind a handle is the replacement, or it stayed. -/
theorem get_set_or (arena : Arena role α) (h other : Handle role) (value : α) :
    (arena.set h value).get other = arena.get other ∨
      h = other ∧ (arena.set h value).get other = value := by
  by_cases here : h = other
  · subst here
    by_cases has : arena.Has h
    · exact .inr ⟨rfl, get_set_self has value⟩
    · exact .inl (by rw [set_of_not_has has])
  · exact .inl (get_set_of_ne arena here value)

/-! ## What holds of all objects -/

/-- What holds of all objects and of a new one holds of all after it was added. -/
theorem forall_get_push (p : α → Prop) {arena : Arena role α} (all : ∀ h, p (arena.get h))
    {value : α} (new : p value) (h : Handle role) : p ((arena.push value).get h) := by
  rw [get_push]
  split
  · exact new
  · exact all h

/-- What holds of all objects and of a replacement holds of all after it was put in place. -/
theorem forall_get_set (p : α → Prop) {arena : Arena role α} (all : ∀ h, p (arena.get h))
    {h : Handle role} {value : α} (replacement : p value) (other : Handle role) :
    p ((arena.set h value).get other) := by
  obtain stayed | ⟨-, replaced⟩ := arena.get_set_or h other value
  · rw [stayed]
    exact all other
  · rw [replaced]
    exact replacement

/-- What holds of all objects and is kept by a function holds of all images. -/
theorem forall_get_map (p : α → Prop) {arena : Arena role α} (all : ∀ h, p (arena.get h))
    {f : α → α} (step : ∀ a, p a → p (f a)) (h : Handle role) :
    p ((⟨arena.slots.map f⟩ : Arena role α).get h) := by
  have read := all h
  cases slot : arena.slots[h.index]? with
  | none => simpa [get, slot] using read
  | some a =>
      rw [get, slot] at read
      simpa [get, slot] using step a read

/-- What is the same of an object and of its replacement is the same for all objects. -/
theorem image_get_set (f : α → β) {arena : Arena role α} {h : Handle role} {value : α}
    (same : f value = f (arena.get h)) (other : Handle role) :
    f ((arena.set h value).get other) = f (arena.get other) := by
  obtain stayed | ⟨rfl, replaced⟩ := arena.get_set_or h other value
  · rw [stayed]
  · rw [replaced, same]

/-! ## Items of an object -/

section

variable (f : α → List β) {arena : Arena role α} {h other : Handle role} {value : α} {b : β}

theorem of_mem_get_set (member : b ∈ f ((arena.set h value).get other)) :
    b ∈ f (arena.get other) ∨ h = other ∧ b ∈ f value := by
  obtain stayed | ⟨same, replaced⟩ := arena.get_set_or h other value
  · exact .inl (stayed ▸ member)
  · exact .inr ⟨same, replaced ▸ member⟩

theorem of_mem_get_set_self (none : f default = []) (member : b ∈ f ((arena.set h value).get h)) :
    b ∈ f value := by
  by_cases has : arena.Has h
  · rwa [get_set_self has] at member
  · rw [set_of_not_has has, get_of_not_has has, none] at member
    cases member

theorem of_mem_get_push (member : b ∈ f ((arena.push value).get h)) :
    b ∈ f (arena.get h) ∨ h = arena.next ∧ b ∈ f value := by
  rw [get_push] at member
  split at member
  next last => exact .inr ⟨last, member⟩
  next => exact .inl member

theorem of_mem_get_push_of_nil (nil : f value = []) (member : b ∈ f ((arena.push value).get h)) :
    b ∈ f (arena.get h) :=
  (of_mem_get_push f member).resolve_right fun new => by
    rw [nil] at new
    cases new.2

end

/-! ## Drafts -/

/-- Drafts are added one after the other: what was there stays, and behind the handle of a draft,
which is a new one, is the object that it was. -/
theorem mapAccum_settle {κ : Type} (entries : List (κ × Draft role α)) (arena : Arena role α) :
    let result := Entries.mapAccum settle arena entries
    arena.size ≤ result.1.size ∧ (∀ h, arena.Has h → result.1.get h = arena.get h) ∧
      ∀ entry ∈ result.2, ∃ draft, (entry.1, draft) ∈ entries ∧
        (draft = .existing entry.2 ∨ ¬arena.Has entry.2 ∧
          result.1.Has entry.2 ∧ draft = .new (result.1.get entry.2)) := by
  induction entries generalizing arena with
  | nil => exact ⟨Nat.le_refl _, fun _ _ => rfl, fun _ none => by cases none⟩
  | cons first rest ih =>
      obtain ⟨key, draft⟩ := first
      cases draft with
      | existing h =>
          obtain ⟨grown, kept, settled⟩ := ih arena
          refine ⟨grown, kept, fun entry member => ?_⟩
          obtain rfl | member := List.mem_cons.1 member
          · exact ⟨_, .head _, .inl rfl⟩
          · obtain ⟨draft, inside, result⟩ := settled entry member
            exact ⟨draft, .tail _ inside, result⟩
      | new value =>
          obtain ⟨grown, kept, settled⟩ := ih (arena.push value)
          have bigger : arena.size ≤ (arena.push value).size := by simp
          refine ⟨Nat.le_trans bigger grown, fun h has => ?_, fun entry member => ?_⟩
          · exact (kept h (Nat.lt_of_lt_of_le has bigger)).trans (get_push_of_has has value)
          · obtain rfl | member := List.mem_cons.1 member
            · have added := arena.has_push_next value
              refine ⟨_, .head _, .inr ⟨arena.not_has_next, Nat.lt_of_lt_of_le added grown, ?_⟩⟩
              exact congrArg Draft.new ((get_push_next arena value).symm.trans (kept _ added).symm)
            · obtain ⟨draft, inside, result⟩ := settled entry member
              refine ⟨draft, .tail _ inside, result.imp_right fun new => ⟨fun has => ?_, new.2⟩⟩
              exact new.1 (Nat.lt_of_lt_of_le has bigger)

end PhpDecl.Arena
