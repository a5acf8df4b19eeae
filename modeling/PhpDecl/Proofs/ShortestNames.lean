import PhpDecl.Proofs.ShortNames

/-!
# The import that a short name is made through

An import covers a name when its segments are the first ones of the name, whatever the case of
letters. A name that is covered is written through the import that gives the shortest text, and
through the first of those that give one as short (`Namespace.shorten_eq_through_best`). So the
order of the imports tells which of several texts is written, but not how long it is, and imports
that do not cover a name have no say in it.
-/

namespace PhpDecl.Namespace

open Name Text

/-! ## The shortest of several texts -/

/-- The shortest text is shorter than those before it, and as short as those behind it. -/
theorem exists_of_shortest? {texts : List (List Char)} {text : List Char}
    (found : shortest? texts = some text) :
    ∃ front back, texts = front ++ text :: back ∧
      (∀ other ∈ front, text.length < other.length) ∧
        ∀ other ∈ back, text.length ≤ other.length := by
  induction texts generalizing text with
  | nil => cases found
  | cons first rest ih =>
      rw [shortest?] at found
      split at found
      next none =>
        cases found
        refine ⟨[], rest, rfl, by simp, ?_⟩
        rw [shortest?_eq_none_iff.1 none]
        simp
      next other later =>
        obtain ⟨front, back, split, before, behind⟩ := ih later
        split at found
        next shorter =>
          cases found
          refine ⟨first :: front, back, by rw [split, List.cons_append], ?_, behind⟩
          exact List.forall_mem_cons.2 ⟨shorter, before⟩
        next longer =>
          cases found
          have short : first.length ≤ other.length := Nat.le_of_not_lt longer
          refine ⟨[], rest, rfl, by simp, fun third member => ?_⟩
          rw [split, List.mem_append, List.mem_cons] at member
          rcases member with member | rfl | member
          · exact Nat.le_trans short (Nat.le_of_lt (before third member))
          · exact short
          · exact Nat.le_trans short (behind third member)

/-! ## Covering imports -/

/-- The segments of the import are the first ones of the name, whatever the case of letters. -/
def Covers (use : Label × QualifiedName) (name : List Char) : Prop :=
  lower use.2.chars ++ [separator] <+: lower (withoutLeading name) ++ [separator]

instance (use : Label × QualifiedName) (name : List Char) : Decidable (Covers use name) :=
  inferInstanceAs (Decidable (_ <+: _))

/-- The name with the alias in place of the characters that the import has. -/
def through (use : Label × QualifiedName) (name : List Char) : List Char :=
  use.1.word.chars ++ (withoutLeading name).drop use.2.chars.length

theorem throughUse?_eq_some_iff {use : Label × QualifiedName} {name text : List Char} :
    throughUse? (withoutLeading name) use = some text ↔
      Covers use name ∧ text = through use name := by
  unfold throughUse? startsWithSegments Covers through
  rw [Option.ite_none_right_eq_some, List.isPrefixOf_iff_prefix, Option.some.injEq, eq_comm]

/-- The texts of a name through the imports that cover it, in the order of the imports. -/
theorem filterMap_throughUse? (uses : List (Label × QualifiedName)) (name : List Char) :
    uses.filterMap (throughUse? (withoutLeading name)) =
      (uses.filter (Covers · name)).map (through · name) := by
  induction uses with
  | nil => rfl
  | cons use rest ih =>
      by_cases covers : Covers use name
      · rw [List.filterMap_cons_some (throughUse?_eq_some_iff.2 ⟨covers, rfl⟩), ih,
          List.filter_cons_of_pos (by simpa using covers), List.map_cons]
      · have none : throughUse? (withoutLeading name) use = none :=
          Option.eq_none_iff_forall_ne_some.2 fun text some =>
            covers (throughUse?_eq_some_iff.1 some).1
        rw [List.filterMap_cons_none none, ih, List.filter_cons_of_neg (by simpa using covers)]

/-- The import covers the name with a text that is shorter than those through the covering imports
before it, and as short as those through the ones behind it. -/
structure Best (name : List Char) (front : List (Label × QualifiedName))
    (use : Label × QualifiedName) (back : List (Label × QualifiedName)) : Prop where
  covers : Covers use name
  before : ∀ other ∈ front, Covers other name →
    (through use name).length < (through other name).length
  behind : ∀ other ∈ back, Covers other name →
    (through use name).length ≤ (through other name).length

theorem Best.shortest {name : List Char} {front back : List (Label × QualifiedName)}
    {use other : Label × QualifiedName} (best : Best name front use back)
    (member : other ∈ front ++ use :: back) (covers : Covers other name) :
    (through use name).length ≤ (through other name).length := by
  rw [List.mem_append, List.mem_cons] at member
  rcases member with member | rfl | member
  · exact Nat.le_of_lt (best.before other member covers)
  · exact Nat.le_refl _
  · exact best.behind other member covers

variable {ns : Namespace} {name : List Char}

theorem shorten_of_name (nonempty : name ≠ []) (notKeyword : isTypeKeyword name = false) :
    ns.shorten name = ns.shortenBare (withoutLeading name) := by
  rw [shorten, notKeyword, Bool.or_false, if_neg (by simpa using nonempty)]

/-- A name that is covered is written through the best import. -/
theorem exists_best (nonempty : name ≠ []) (notKeyword : isTypeKeyword name = false)
    (covered : ∃ use ∈ ns.uses.entries, Covers use name) :
    ∃ front use back, ns.uses.entries = front ++ use :: back ∧ Best name front use back ∧
      ns.shorten name = through use name := by
  rw [shorten_of_name nonempty notKeyword, shortenBare, filterMap_throughUse?]
  split
  next text found =>
    obtain ⟨shorter, longer, split, before, behind⟩ := exists_of_shortest? found
    -- Each text belongs to a covering import, at the same place among them.
    obtain ⟨early, late, filtered, rfl, texts⟩ := List.map_eq_append_iff.1 split
    obtain ⟨use, later, rfl, rfl, rfl⟩ := List.map_eq_cons_iff.1 texts
    obtain ⟨front, tail, entries, rfl, ends⟩ := List.filter_eq_append_iff.1 filtered
    obtain ⟨skipped, back, rfl, none, covers, rfl⟩ := List.filter_eq_cons_iff.1 ends
    refine ⟨front ++ skipped, use, back, by rw [entries, List.append_assoc],
      ⟨by simpa using covers, ?_, ?_⟩, rfl⟩
    · intro other member covers
      rcases List.mem_append.1 member with member | member
      · exact before _ (List.mem_map_of_mem (List.mem_filter.2 ⟨member, by simpa using covers⟩))
      · exact absurd (by simpa using covers) (none other member)
    · intro other member covers
      exact behind _ (List.mem_map_of_mem (List.mem_filter.2 ⟨member, by simpa using covers⟩))
  next none =>
    obtain ⟨use, listed, covers⟩ := covered
    rw [shortest?_eq_none_iff, List.map_eq_nil_iff, List.filter_eq_nil_iff] at none
    exact absurd (by simpa using covers) (none use listed)

/-- A name that no import covers is written as in a namespace without imports. -/
theorem shorten_of_uncovered (uncovered : ∀ use ∈ ns.uses.entries, ¬Covers use name) :
    ns.shorten name = (⟨ns.name, .empty⟩ : Namespace).shorten name := by
  have none : (ns.uses.entries.filter (Covers · name)).map (through · name) = [] := by
    rw [List.map_eq_nil_iff, List.filter_eq_nil_iff]
    simpa using uncovered
  rw [shorten, shorten, shortenBare, filterMap_throughUse?, none]
  rfl

/-- The lengths of short texts do not depend on the order of the imports. -/
theorem length_shorten_of_perm {other : Namespace} (named : other.name = ns.name)
    (same : other.uses.entries.Perm ns.uses.entries) (name : List Char) :
    (other.shorten name).length = (ns.shorten name).length := by
  by_cases kept : (name.isEmpty || isTypeKeyword name) = true
  · rw [shorten, shorten, if_pos kept, if_pos kept]
  · obtain ⟨nonempty, notKeyword⟩ : name ≠ [] ∧ isTypeKeyword name = false := by
      simpa using kept
    by_cases covered : ∃ use ∈ ns.uses.entries, Covers use name
    · obtain ⟨front, use, back, entries, best, short⟩ := exists_best nonempty notKeyword covered
      obtain ⟨use₀, listed, covers⟩ := covered
      obtain ⟨front', use', back', entries', best', short'⟩ :=
        exists_best nonempty notKeyword ⟨use₀, same.mem_iff.2 listed, covers⟩
      have listed' : use' ∈ front ++ use :: back :=
        entries ▸ same.mem_iff.1 (entries' ▸ List.mem_append_right _ List.mem_cons_self)
      have listed : use ∈ front' ++ use' :: back' :=
        entries' ▸ same.mem_iff.2 (entries ▸ List.mem_append_right _ List.mem_cons_self)
      rw [short, short']
      exact Nat.le_antisymm (best'.shortest listed best.covers) (best.shortest listed' best'.covers)
    · have uncovered : ∀ use ∈ ns.uses.entries, ¬Covers use name :=
        fun use listed covers => covered ⟨use, listed, covers⟩
      rw [shorten_of_uncovered uncovered, ← named,
        shorten_of_uncovered fun use listed => uncovered use (same.mem_iff.1 listed)]

/-- The best alias wins. A name that is no type word is written through an import that covers it,
if there is one: through the one that gives the shortest text, and of several as short through the
first. Where no import covers it, the text depends on the name of the namespace alone. So the
order of the imports has no influence on how long a text is. -/
theorem shorten_eq_through_best (ns : Namespace) :
    (∀ {name}, name ≠ [] → isTypeKeyword name = false →
      ((∃ use ∈ ns.uses.entries, Covers use name) →
        ∃ front use back, ns.uses.entries = front ++ use :: back ∧ Covers use name ∧
          ns.shorten name = through use name ∧
          (∀ other ∈ ns.uses.entries, Covers other name →
            (ns.shorten name).length ≤ (through other name).length) ∧
          ∀ other ∈ front, Covers other name →
            (ns.shorten name).length < (through other name).length) ∧
      ((∀ use ∈ ns.uses.entries, ¬Covers use name) → ∀ other : Namespace, other.name = ns.name →
        (∀ use ∈ other.uses.entries, ¬Covers use name) → other.shorten name = ns.shorten name)) ∧
    ∀ other : Namespace, other.name = ns.name → other.uses.entries.Perm ns.uses.entries →
      ∀ name, (other.shorten name).length = (ns.shorten name).length := by
  refine ⟨fun {name} nonempty notKeyword => ⟨fun covered => ?_, ?_⟩, ?_⟩
  · obtain ⟨front, use, back, entries, best, short⟩ := exists_best nonempty notKeyword covered
    refine ⟨front, use, back, entries, best.covers, short, fun other listed covers => ?_, ?_⟩
    · rw [short]
      exact best.shortest (entries ▸ listed) covers
    · rw [short]
      exact best.before
  · intro uncovered other named alsoUncovered
    rw [shorten_of_uncovered uncovered, shorten_of_uncovered alsoUncovered, named]
  · intro other named same
    exact length_shorten_of_perm named same

/-- The namespace `Site` with imports that cover the names of a package, two of them by as many
segments. -/
def overlapping : Namespace :=
  ⟨some ⟨"Site", by decide⟩,
    .ofList
      [(⟨.text "Package", by decide⟩, ⟨"Vendor\\Package", by decide⟩),
        (⟨.text "S", by decide⟩, ⟨"Vendor\\Package\\Sub", by decide⟩),
        (⟨.text "T", by decide⟩, ⟨"vendor\\package\\sub", by decide⟩)]⟩

/-- The same imports in another order. -/
def overlappingReversed : Namespace :=
  ⟨overlapping.name, .ofList overlapping.uses.entries.reverse⟩

/-- A name of the package is written through the first of the two longer imports, a name that only
looks like one through none, and the other order gives a text of the same length. -/
theorem shorten_overlapping :
    let name := "\\Vendor\\Package\\Sub\\Thing".toList
    (∃ front use back, overlapping.uses.entries = front ++ use :: back ∧ Covers use name ∧
      "S\\Thing".toList = through use name ∧ (∀ other ∈ overlapping.uses.entries,
        Covers other name → 7 ≤ (through other name).length) ∧
      ∀ other ∈ front, Covers other name → 7 < (through other name).length) ∧
    "\\Vendor\\Packages".toList = overlapping.shorten "Vendor\\Packages".toList ∧
    (overlappingReversed.shorten name).length = 7 := by
  intro name
  obtain ⟨best, ordered⟩ := shorten_eq_through_best overlapping
  have text : overlapping.shorten name = "S\\Thing".toList := by decide +kernel
  have covered : ∃ use ∈ overlapping.uses.entries, Covers use name := by decide +kernel
  have uncovered : ∀ use ∈ overlapping.uses.entries, ¬Covers use "Vendor\\Packages".toList := by
    decide +kernel
  have reversed : overlappingReversed.uses.entries.Perm overlapping.uses.entries := by
    decide +kernel
  refine ⟨?_, ?_, ?_⟩
  · have through := (best (by decide) (by decide +kernel)).1 covered
    rw [text] at through
    exact through
  · have alone := (best (by decide) (by decide +kernel)).2 uncovered ⟨overlapping.name, .empty⟩ rfl
      (fun use listed => by cases listed)
    exact Eq.trans (by decide +kernel) alone
  · rw [ordered overlappingReversed rfl reversed, text]
    rfl

end PhpDecl.Namespace
