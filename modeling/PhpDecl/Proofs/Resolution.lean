import PhpDecl.Namespace
import PhpDecl.Proofs.Lower

/-!
# What short names mean

Inside a namespace a name with a separator in front means the rest as it is. In any other name
the first segment may be an alias, whatever the case of its letters, and then stands for the
imported name; a name whose first segment is no alias means one of the namespace itself.

A short text is meant to mean the name that it was made from. It is made through one import, or
relative to the namespace, without a look at the other aliases. So it means the name exactly when
its first segment is not taken for another import, and when, taken for none, it means the name
(`meansSame_iff_unambiguous`). The second holds by itself unless a name is cut in the wrong place,
as it may be where letters have lower cases of other lengths.
-/

namespace PhpDecl.Namespace

open Name Text

/-! ## Resolving names -/

/-- The text up to its first separator. -/
def firstSegment (text : List Char) : List Char := text.takeWhile (· != separator)

/-- The text from its first separator on. -/
def afterFirst (text : List Char) : List Char := text.dropWhile (· != separator)

/-- The imported names of which the first segment of a text is an alias. -/
def importsOf (ns : Namespace) (text : List Char) : List QualifiedName :=
  (ns.uses.entries.filter fun use => lower use.1.word.chars == lower (firstSegment text)).map
    Prod.snd

/-- What stands in front of the names of the namespace. -/
def ownPrefix (ns : Namespace) : List Char :=
  match ns.name with
  | none => []
  | some own => own.chars ++ [separator]

/-- The full names that a text stands for. There are several only where aliases differ in
nothing but the case of letters. -/
def resolutions (ns : Namespace) : List Char → List (List Char)
  | '\\' :: rest => [rest]
  | text =>
      match ns.importsOf text with
      | [] => [ns.ownPrefix ++ text]
      | names => names.map fun name => name.chars ++ afterFirst text

/-- The short text of a name stands for the name, up to the case of letters. -/
def MeansSame (ns : Namespace) (name : List Char) : Prop :=
  ∀ meaning ∈ ns.resolutions (ns.shorten name), lower meaning = lower (withoutLeading name)

instance (ns : Namespace) (name : List Char) : Decidable (ns.MeansSame name) :=
  inferInstanceAs (Decidable (∀ meaning ∈ ns.resolutions (ns.shorten name), _))

/-- What the first segment of the short text of a name stands for in it. -/
def replaced (ns : Namespace) (name : List Char) : List Char :=
  let bare := withoutLeading name
  bare.take (bare.length - (afterFirst (ns.shorten name)).length)

/-- The first segment of the short text of a name is an alias of nothing but what it stands for. -/
def Unambiguous (ns : Namespace) (name : List Char) : Prop :=
  ∀ original ∈ ns.importsOf (ns.shorten name), lower original.chars = lower (ns.replaced name)

instance (ns : Namespace) (name : List Char) : Decidable (ns.Unambiguous name) :=
  inferInstanceAs (Decidable (∀ original ∈ ns.importsOf (ns.shorten name), _))

/-- What a text stands for when its first segment is no alias. -/
def unaliased (ns : Namespace) : List Char → List Char
  | '\\' :: rest => rest
  | text => ns.ownPrefix ++ text

/-- The short text of a name stands for the name when its first segment is no alias. -/
def Complete (ns : Namespace) (name : List Char) : Prop :=
  ns.importsOf (ns.shorten name) = [] →
    lower (ns.unaliased (ns.shorten name)) = lower (withoutLeading name)

/-- Where a name starts with an import or with the namespace, up to the case of letters, it does
so with as many characters. -/
structure CutsEvenly (ns : Namespace) (name : List Char) : Prop where
  uses : ∀ use ∈ ns.uses.entries, startsWithSegments (withoutLeading name) use.2.chars = true →
    lower ((withoutLeading name).take use.2.chars.length) = lower use.2.chars
  own : ∀ own, ns.name = some own →
    (lower own.chars ++ [separator]).isPrefixOf (lower (withoutLeading name)) = true →
      lower ((withoutLeading name).take own.chars.length) = lower own.chars

/-! ## Segments -/

/-- A text that is empty or starts with a separator, so that a segment ends in front of it. -/
def AtBoundary (text : List Char) : Prop := text = [] ∨ ∃ rest, text = separator :: rest

theorem atBoundary_afterFirst (text : List Char) : AtBoundary (afterFirst text) := by
  induction text with
  | nil => exact .inl rfl
  | cons c text ih =>
      by_cases same : c = separator
      · exact .inr ⟨text, by simp [afterFirst, same]⟩
      · simpa [afterFirst, same] using ih

/-- Texts in front of a boundary are alike, up to the case of letters, when the wholes are. -/
theorem lower_append_inj {front other rest : List Char} (boundary : AtBoundary rest) :
    lower (front ++ rest) = lower (other ++ rest) ↔ lower front = lower other := by
  rcases boundary with rfl | ⟨rest, rfl⟩
  · rw [List.append_nil, List.append_nil]
  · rw [lower_append_separator, lower_append_separator, List.append_cancel_right_eq]

theorem all_ne_separator {segment : List Char} (valid : isIdentifier segment = true) :
    ∀ c ∈ segment, (c != separator) = true := by
  intro c member
  rw [bne_iff_ne]
  rintro rfl
  have inside := isRest_of_mem valid member
  rw [isRest_separator] at inside
  cases inside

/-- An identifier in front of a boundary is the first segment. -/
theorem firstSegment_append {segment rest : List Char} (valid : isIdentifier segment = true)
    (boundary : AtBoundary rest) : firstSegment (segment ++ rest) = segment := by
  rw [firstSegment, List.takeWhile_append_of_pos (all_ne_separator valid)]
  rcases boundary with rfl | ⟨rest, rfl⟩
  · exact List.append_nil _
  · simp

/-- A qualified name does not start with a separator. -/
theorem exists_start_of_isQualified {text : List Char} (valid : matchSegments true text = true) :
    ∃ c others, text = c :: others ∧ c ≠ separator := by
  cases text with
  | nil => cases valid
  | cons c others =>
      refine ⟨c, others, rfl, ?_⟩
      rintro rfl
      rw [matchSegments, isStart_separator] at valid
      cases valid

theorem head?_ne_of_isQualified {text : List Char} (valid : matchSegments true text = true) :
    text.head? ≠ some separator := by
  obtain ⟨c, others, rfl, start⟩ := exists_start_of_isQualified valid
  exact fun same => start (Option.some.inj same)

theorem withoutLeading_of_isQualified {text : List Char} (valid : isQualified text = true) :
    withoutLeading text = text := by
  obtain ⟨c, others, rfl, start⟩ := exists_start_of_isQualified valid
  simp [withoutLeading, start]

/-- A type name without the separator in front is qualified. -/
theorem isQualified_withoutLeading {name : List Char} (valid : isTypeName name = true) :
    isQualified (withoutLeading name) = true := by
  cases name with
  | nil => cases valid
  | cons c rest =>
      rw [isTypeName] at valid
      split at valid
      next same =>
        have dropped : withoutLeading (c :: rest) = withoutLeading rest := by
          rw [eq_of_beq same]
          simp [withoutLeading]
        rw [dropped, withoutLeading_of_isQualified valid]
        exact valid
      next =>
        rw [withoutLeading_of_isQualified valid]
        exact valid

/-- What follows a separator of a qualified name is qualified. -/
theorem isQualified_after_separator {atStart : Bool} {front rest : List Char}
    (valid : matchSegments atStart (front ++ separator :: rest) = true) :
    isQualified rest = true := by
  induction front generalizing atStart with
  | nil =>
      cases atStart with
      | true =>
          rw [List.nil_append, matchSegments, isStart_separator] at valid
          cases valid
      | false =>
          rw [List.nil_append, matchSegments, if_pos (beq_self_eq_true _)] at valid
          exact valid
  | cons c front ih =>
      cases atStart with
      | true =>
          rw [List.cons_append, matchSegments, Bool.and_eq_true] at valid
          exact ih valid.2
      | false =>
          rw [List.cons_append, matchSegments] at valid
          split at valid
          · exact ih valid
          · exact ih (Bool.and_eq_true _ _ ▸ valid).2

/-! ## How short texts are made -/

/-- The forms of the short text of a name without a separator in front. -/
inductive ShortForm (ns : Namespace) (bare : List Char) : List Char → Prop
  | nick {use : Label × QualifiedName} {front rest : List Char} (listed : use ∈ ns.uses.entries)
      (split : bare = front ++ rest) (same : lower front = lower use.2.chars)
      (boundary : AtBoundary rest) : ShortForm ns bare (use.1.word.chars ++ rest)
  | relative {own : QualifiedName} {front rest : List Char} (inside : ns.name = some own)
      (split : bare = front ++ separator :: rest) (same : lower front = lower own.chars) :
      ShortForm ns bare rest
  | whole (unnamed : ns.name = none) : ShortForm ns bare bare
  | full : ShortForm ns bare (separator :: bare)

/-- The text of a name through an import that covers it. -/
theorem shortForm_of_throughUse? {ns : Namespace} {bare text : List Char}
    {use : Label × QualifiedName} (listed : use ∈ ns.uses.entries)
    (even : startsWithSegments bare use.2.chars = true →
      lower (bare.take use.2.chars.length) = lower use.2.chars)
    (through : throughUse? bare use = some text) : ns.ShortForm bare text := by
  unfold throughUse? at through
  split at through
  next covers =>
    cases through
    have same := even covers
    refine .nick listed (List.take_append_drop _ bare).symm same ?_
    cases rest : bare.drop use.2.chars.length with
    | nil => exact .inl rfl
    | cons c others =>
        have starts := List.isPrefixOf_iff_prefix.1 covers
        rw [← List.take_append_drop use.2.chars.length bare, rest] at starts
        exact .inr ⟨others, by rw [exists_separator_of_start (congrArg _ same) starts]⟩
  next => cases through

theorem mem_of_shortest? {texts : List (List Char)} {text : List Char}
    (h : shortest? texts = some text) : text ∈ texts := by
  induction texts generalizing text with
  | nil => cases h
  | cons first rest ih =>
      rw [shortest?] at h
      split at h
      next => exact Option.some.inj h ▸ List.mem_cons_self
      next other found =>
        split at h
        · exact List.mem_cons_of_mem _ (ih (found.trans h))
        · exact Option.some.inj h ▸ List.mem_cons_self

/-- Every short text has one of the forms, when names are cut evenly. -/
theorem shortForm_shorten {ns : Namespace} {name : List Char} (nonempty : name ≠ [])
    (notKeyword : isTypeKeyword name = false) (even : ns.CutsEvenly name) :
    ns.ShortForm (withoutLeading name) (ns.shorten name) := by
  have kept : (name.isEmpty || isTypeKeyword name) = false := by
    simp [nonempty, notKeyword]
  rw [shorten, kept, if_neg Bool.false_ne_true, shortenBare]
  split
  next text found =>
    obtain ⟨use, listed, through⟩ := List.mem_filterMap.1 (mem_of_shortest? found)
    exact shortForm_of_throughUse? listed (even.uses use listed) through
  next =>
    split
    next unnamed => exact .whole unnamed
    next own inside =>
      split
      next starts =>
        have same := even.own own inside starts
        cases rest : (withoutLeading name).drop own.chars.length with
        | nil =>
            have short := (List.isPrefixOf_iff_prefix.1 starts).length_le
            rw [List.take_of_length_le (List.drop_eq_nil_iff.1 rest)] at same
            rw [same, List.length_append, List.length_singleton] at short
            omega
        | cons c others =>
            -- The prefix ends with a separator, so that is what the name goes on with.
            have split := List.take_append_drop own.chars.length (withoutLeading name)
            rw [rest] at split
            have begins := (List.isPrefixOf_iff_prefix.1 starts).trans (List.prefix_append _ [])
            rw [← split] at begins
            obtain rfl := exists_separator_of_start (congrArg _ same) begins
            have cut : (withoutLeading name).drop (own.chars.length + 1) = others := by
              rw [← List.tail_drop, rest, List.tail_cons]
            rw [cut]
            exact .relative inside split.symm same
      next => exact .full

/-! ## Even cuts -/

/-- Texts without the dotted capital I are as long as their lower cases, so a prefix up to the
case of letters has as many characters. -/
theorem lower_take_of_covers {original bare : List Char} (undotted : Undotted original)
    (undottedBare : Undotted bare) (covers : startsWithSegments bare original = true) :
    lower (bare.take original.length) = lower original := by
  have starts := List.isPrefixOf_iff_prefix.1 covers
  have long : original.length ≤ bare.length := by
    have lengths := starts.length_le
    rw [List.length_append, List.length_append, length_lower undotted,
      length_lower undottedBare] at lengths
    exact Nat.le_of_add_le_add_right lengths
  -- Both prefixes are as long as their lower cases, and these are the start of one text.
  have taken : Undotted (bare.take original.length) :=
    fun c member => undottedBare c (List.mem_of_mem_take member)
  have same : (lower (bare.take original.length)).length = (lower original).length := by
    rw [length_lower taken, length_lower undotted, List.length_take_of_le long]
  rw [← List.take_append_drop original.length bare] at starts
  cases rest : bare.drop original.length with
  | nil =>
      rw [rest, List.append_nil] at starts
      obtain ⟨more, whole⟩ := starts
      rw [List.append_assoc] at whole
      exact ((List.append_inj whole same.symm).1).symm
  | cons c others =>
      rw [rest] at starts
      obtain rfl := exists_separator_of_start same starts
      rw [lower_append_separator, List.append_assoc] at starts
      obtain ⟨more, whole⟩ := starts
      rw [List.append_assoc] at whole
      exact ((List.append_inj whole same.symm).1).symm

/-- Names are cut evenly where none of them holds a dotted capital I. -/
theorem cutsEvenly_of_undotted {ns : Namespace} {name : List Char} (undotted : Undotted name)
    (uses : ∀ use ∈ ns.uses.entries, Undotted use.2.chars)
    (own : ∀ own, ns.name = some own → Undotted own.chars) : ns.CutsEvenly name := by
  have bare : Undotted (withoutLeading name) :=
    fun c member => undotted c ((List.dropWhile_suffix _).mem member)
  refine ⟨fun use listed => lower_take_of_covers (uses use listed) bare, ?_⟩
  intro name named starts
  refine lower_take_of_covers (own name named) bare (List.isPrefixOf_iff_prefix.2 ?_)
  exact (List.isPrefixOf_iff_prefix.1 starts).trans (List.prefix_append _ _)

/-! ## When short texts mean the name -/

theorem lower_ne_nil {text : List Char} (some : text ≠ []) : lower text ≠ [] := by
  cases text with
  | nil => exact absurd rfl some
  | cons c rest => exact lowerAfter_cons_ne_nil false c rest

/-- No alias stands in front of a leading separator. -/
theorem importsOf_separator (ns : Namespace) (rest : List Char) :
    ns.importsOf (separator :: rest) = [] := by
  have none : ns.uses.entries.filter (fun use => lower use.1.word.chars ==
      lower (firstSegment (separator :: rest))) = [] := by
    refine List.filter_eq_nil_iff.2 fun use _ same => ?_
    have empty : firstSegment (separator :: rest) = [] := by simp [firstSegment]
    rw [empty, beq_iff_eq] at same
    refine lower_ne_nil (fun letters => ?_) same
    have valid := use.1.valid
    rw [letters] at valid
    cases valid
  rw [importsOf, none, List.map_nil]

/-- A text stands for what its first segment is an alias of, or, when that is no alias, for what
it means without one. -/
theorem resolutions_eq (ns : Namespace) (text : List Char) :
    ns.resolutions text =
      if ns.importsOf text = [] then [ns.unaliased text]
      else (ns.importsOf text).map fun name => name.chars ++ afterFirst text := by
  unfold resolutions
  split
  next rest => exact (if_pos (ns.importsOf_separator rest)).symm
  next other =>
    rw [unaliased]
    · cases ns.importsOf text with
      | nil => rw [if_pos rfl]
      | cons first others => rw [if_neg (List.cons_ne_nil _ _)]
    · exact other

/-- Behind its first segment the short text of a name is the end of the name, unless it is the
name in full. -/
theorem shorten_eq_or_afterFirst_suffix {ns : Namespace} {name : List Char} (nonempty : name ≠ [])
    (notKeyword : isTypeKeyword name = false) :
    ns.shorten name = separator :: withoutLeading name ∨
      afterFirst (ns.shorten name) <:+ withoutLeading name := by
  have kept : (name.isEmpty || isTypeKeyword name) = false := by
    simp [nonempty, notKeyword]
  rw [shorten, kept, if_neg Bool.false_ne_true, shortenBare]
  split
  next text found =>
    obtain ⟨use, _, through⟩ := List.mem_filterMap.1 (mem_of_shortest? found)
    unfold throughUse? at through
    split at through
    next =>
      cases through
      rw [afterFirst, List.dropWhile_append_of_pos (all_ne_separator use.1.valid)]
      exact .inr ((List.dropWhile_suffix _).trans (List.drop_suffix _ _))
    next => cases through
  next =>
    split
    next => exact .inr (List.dropWhile_suffix _)
    next own _ =>
      split
      next => exact .inr ((List.dropWhile_suffix _).trans (List.drop_suffix _ _))
      next => exact .inl rfl

theorem unaliased_of_head {ns : Namespace} {text : List Char}
    (head : text.head? ≠ some separator) : ns.unaliased text = ns.ownPrefix ++ text := by
  unfold unaliased
  split
  next => exact absurd rfl head
  next => rfl

/-- Where names are cut evenly, a short text whose first segment is no alias stands for the
name. -/
theorem complete_of_cutsEvenly {ns : Namespace} {name : List Char} (valid : isTypeName name = true)
    (notKeyword : isTypeKeyword name = false) (even : ns.CutsEvenly name) : ns.Complete name := by
  have nonempty : name ≠ [] := by
    rintro rfl
    cases valid
  have qualified := isQualified_withoutLeading valid
  unfold Complete
  have form := shortForm_shorten nonempty notKeyword even
  generalize ns.shorten name = text at form ⊢
  generalize withoutLeading name = bare at form qualified ⊢
  intro none
  cases form with
  | @nick use front rest listed split same boundary =>
      -- The alias that the text is made through is one of those that its first segment is.
      have taken : use.2 ∈ ns.importsOf (use.1.word.chars ++ rest) := by
        refine List.mem_map.2 ⟨use, List.mem_filter.2 ⟨listed, ?_⟩, rfl⟩
        rw [firstSegment_append use.1.valid boundary]
        exact beq_self_eq_true _
      rw [none] at taken
      exact absurd taken List.not_mem_nil
  | @relative own front _ inside split same =>
      have rest_qualified : isQualified text = true :=
        isQualified_after_separator (split ▸ qualified)
      rw [unaliased_of_head (head?_ne_of_isQualified rest_qualified), ownPrefix, inside, split,
        List.append_assoc, List.singleton_append, lower_append_separator, lower_append_separator,
        same]
  | whole unnamed =>
      rw [unaliased_of_head (head?_ne_of_isQualified qualified), ownPrefix, unnamed,
        List.nil_append]
  | full => rfl

/-- A short text means the name that it was made from exactly when it is unambiguous and
complete, and it is complete where names are cut evenly. -/
theorem meansSame_iff_unambiguous {ns : Namespace} {name : List Char}
    (valid : isTypeName name = true) (notKeyword : isTypeKeyword name = false) :
    (ns.MeansSame name ↔ ns.Unambiguous name ∧ ns.Complete name) ∧
      (ns.CutsEvenly name → ns.Complete name) := by
  refine ⟨?_, complete_of_cutsEvenly valid notKeyword⟩
  have nonempty : name ≠ [] := by
    rintro rfl
    cases valid
  unfold MeansSame Unambiguous Complete replaced
  rw [resolutions_eq]
  -- Without an alias there is one meaning; with aliases each replaces the same part of the name.
  by_cases none : ns.importsOf (ns.shorten name) = []
  · rw [if_pos none, none, List.forall_mem_singleton]
    exact ⟨fun same => ⟨fun _ member => absurd member List.not_mem_nil, fun _ => same⟩,
      fun both => both.2 rfl⟩
  · rw [if_neg none, List.forall_mem_map]
    rcases shorten_eq_or_afterFirst_suffix nonempty notKeyword with full | ⟨front, split⟩
    · rw [full, importsOf_separator] at none
      exact absurd rfl none
    · have taken : (withoutLeading name).take ((withoutLeading name).length -
          (afterFirst (ns.shorten name)).length) = front := by
        rw [← split, List.length_append, Nat.add_sub_cancel, List.take_left]
      have each (original : QualifiedName) :
          lower (original.chars ++ afterFirst (ns.shorten name)) = lower (withoutLeading name) ↔
            lower original.chars = lower front := by
        rw [← split]
        exact lower_append_inj (atBoundary_afterFirst _)
      simp only [taken, each, none, false_implies, and_true]

/-- The namespace `App`, where `User` is an alias. -/
def importingUser : Namespace :=
  ⟨some ⟨"App", by decide⟩, .ofList [(⟨.text "User", by decide⟩, ⟨"Other\\User", by decide⟩)]⟩

theorem meansSame_importingUser : importingUser.MeansSame "other\\User\\Role".toList := by
  obtain ⟨means, complete⟩ := meansSame_iff_unambiguous
    (by decide : isTypeName "other\\User\\Role".toList = true) (by decide +kernel)
  refine means.2 ⟨by decide +kernel, complete (cutsEvenly_of_undotted (by decide) (by decide) ?_)⟩
  intro own named
  cases named
  decide

/-- A class of the namespace is written like the import of another class of the same name. -/
theorem not_meansSame_importingUser :
    addUse ⟨some ⟨"App", by decide⟩, .empty⟩ "Other\\User" none = .ok importingUser ∧
      importingUser.shorten "App\\User".toList = "User".toList ∧
        ¬importingUser.MeansSame "App\\User".toList := by
  refine ⟨by rfl, by decide +kernel, by decide +kernel⟩

/-- A name that is cut unevenly may mean another one, though no alias is in the way: the import
is one character, and the lower case that the name spells out is two. -/
theorem not_meansSame_dotted :
    let ns : Namespace := ⟨none, .ofList [(⟨.text "A", by decide⟩, ⟨"\u0130", by decide⟩)]⟩
    ns.Unambiguous "i\u0307\\Role".toList ∧ ¬ns.MeansSame "i\u0307\\Role".toList := by
  refine ⟨by decide +kernel, by decide +kernel⟩

end PhpDecl.Namespace
