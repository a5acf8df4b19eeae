import PhpDecl.Declaration.Printer
import PhpDecl.Proofs.Literals
import PhpDecl.Proofs.Resolution

/-!
# When short names are names

A short text is made of an alias and the end of a name, is the name itself, or is what is left of
the name behind the namespace. Wherever a qualified name is cut, an alias may stand in front of
the rest. The rest by itself is a name unless nothing is left, or a digit comes first
(`Namespace.isTypeName_shorten_iff`): the name is matched in lower case and cut by the number of
characters, so where the lower case is longer it may be cut too late. Names without a dotted
capital I are not.
-/

namespace PhpDecl

namespace Name

/-- What is accepted at the start of a segment is accepted inside one. -/
theorem matchSegments_inside {atStart : Bool} {text : List Char}
    (valid : matchSegments atStart text = true) : matchSegments false text = true := by
  cases atStart with
  | false => exact valid
  | true =>
      obtain ⟨c, others, rfl, start⟩ := Namespace.exists_start_of_isQualified valid
      rw [matchSegments, Bool.and_eq_true] at valid
      rw [matchSegments, if_neg (by simpa using start), isRest, valid.1, valid.2]
      rfl

/-- Every end of a qualified name is accepted inside a segment. -/
theorem matchSegments_suffix {atStart : Bool} {text rest : List Char}
    (valid : matchSegments atStart text = true) (suffix : rest <:+ text) :
    matchSegments false rest = true := by
  obtain ⟨front, rfl⟩ := suffix
  induction front generalizing atStart with
  | nil => exact matchSegments_inside valid
  | cons c front ih =>
      have inside := matchSegments_inside valid
      rw [List.cons_append, matchSegments] at inside
      split at inside
      · exact ih inside
      · exact ih (Bool.and_eq_true _ _ ▸ inside).2

/-- An identifier in front of what is accepted inside a segment makes a qualified name. -/
theorem isQualified_append {segment rest : List Char} (identifier : isIdentifier segment = true)
    (valid : matchSegments false rest = true) : isQualified (segment ++ rest) = true := by
  cases segment with
  | nil => cases identifier
  | cons c others =>
      rw [isIdentifier, Bool.and_eq_true] at identifier
      rw [isQualified, List.cons_append, matchSegments, identifier.1, Bool.true_and]
      have inside := identifier.2
      clear identifier
      induction others with
      | nil => exact valid
      | cons d others ih =>
          rw [List.all_cons, Bool.and_eq_true] at inside
          have other : d ≠ separator := by
            rintro rfl
            rw [isRest_separator] at inside
            cases inside.1
          rw [List.cons_append, matchSegments, if_neg (by simpa using other), inside.1,
            Bool.true_and]
          exact ih inside.2

theorem isTypeName_of_isQualified {text : List Char} (valid : isQualified text = true) :
    isTypeName text = true := by
  obtain ⟨c, others, rfl, start⟩ := Namespace.exists_start_of_isQualified valid
  rw [isTypeName, if_neg (by simpa using start)]
  exact valid

def isDigit (c : Char) : Bool := '0' ≤ c && c ≤ '9'

/-- No identifier starts with a digit. -/
theorem isStart_of_isDigit {c : Char} (digit : isDigit c = true) : isStart c = false := by
  simp only [isDigit, Bool.and_eq_true, decide_eq_true_eq] at digit
  have low : c.toNat < 0x7f := Nat.lt_of_le_of_lt (UInt32.le_iff_toNat_le.1 digit.2) (by decide)
  exact Text.forall_low (P := fun c => isDigit c = true → isStart c = false) (by decide +kernel) low
    (by simpa [isDigit] using digit)

/-- The end of a name is a name unless nothing is left of it or a digit comes first. -/
theorem isTypeName_iff_of_inside {text : List Char} (valid : matchSegments false text = true) :
    isTypeName text = true ↔ ¬text.head?.all isDigit = true := by
  cases text with
  | nil => decide
  | cons c others =>
      rw [matchSegments] at valid
      rw [isTypeName, List.head?_cons, Option.all_some]
      split at valid
      next same =>
        rw [eq_of_beq same, if_pos (beq_self_eq_true _)]
        exact ⟨fun _ => by decide, fun _ => valid⟩
      next other =>
        rw [Bool.and_eq_true, isRest] at valid
        rw [if_neg other, isQualified, matchSegments, valid.2, Bool.and_true]
        cases digit : isDigit c with
        | true => simp [isStart_of_isDigit digit]
        | false =>
            have start : isStart c = true := by
              rw [isDigit] at digit
              simpa [digit] using valid.1
            simp [start]

end Name

namespace Namespace

open Name Text

/-! ## Cut too late -/

/-- No import covers the name, and it starts with the namespace; but what is left of it behind as
many characters as the namespace and a separator have is nothing, or starts with a digit. -/
structure Overcut (ns : Namespace) (name : List Char) : Prop where
  notKeyword : isTypeKeyword name = false
  uncovered : ∀ use ∈ ns.uses.entries,
    startsWithSegments (withoutLeading name) use.2.chars = false
  late : ∃ own, ns.name = some own ∧
    (lower own.chars ++ [separator]).isPrefixOf (lower (withoutLeading name)) = true ∧
      ((withoutLeading name).drop (own.chars.length + 1)).head?.all isDigit = true

/-- There is a shortest text just when there is any. -/
theorem shortest?_eq_none_iff {texts : List (List Char)} : shortest? texts = none ↔ texts = [] := by
  cases texts with
  | nil => simp [shortest?]
  | cons text rest =>
      rw [shortest?]
      split
      · simp
      · split <;> simp

/-- No import gives a text just when none covers the name. -/
theorem filterMap_throughUse?_eq_nil_iff {ns : Namespace} {bare : List Char} :
    ns.uses.entries.filterMap (throughUse? bare) = [] ↔
      ∀ use ∈ ns.uses.entries, startsWithSegments bare use.2.chars = false := by
  simp [List.filterMap_eq_nil_iff, throughUse?]

/-- The short text of a name is a name, unless the name is cut too late. -/
theorem isTypeName_shorten {ns : Namespace} {name : List Char} (valid : isTypeName name = true) :
    isTypeName (ns.shorten name) = true ↔ ¬ns.Overcut name := by
  have qualified := isQualified_withoutLeading valid
  rw [shorten]
  split
  next kept =>
    have keyword : isTypeKeyword name = true := by
      cases name with
      | nil => cases valid
      | cons c rest => exact kept
    refine iff_of_true valid fun overcut => ?_
    rw [overcut.notKeyword] at keyword
    cases keyword
  next other =>
    have notKeyword : isTypeKeyword name = false := by
      rw [Bool.or_eq_true, not_or] at other
      exact Bool.eq_false_iff.2 other.2
    rw [shortenBare]
    split
    next text found =>
      -- An alias may stand in front of every end of the name.
      obtain ⟨use, listed, through⟩ := List.mem_filterMap.1 (mem_of_shortest? found)
      unfold throughUse? at through
      split at through
      next covers =>
        cases through
        refine iff_of_true (isTypeName_of_isQualified ?_) fun overcut => ?_
        · exact isQualified_append use.1.valid
            (matchSegments_suffix qualified (List.drop_suffix _ _))
        · rw [overcut.uncovered use listed] at covers
          cases covers
      next => cases through
    next none =>
      have uncovered := filterMap_throughUse?_eq_nil_iff.1 (shortest?_eq_none_iff.1 none)
      split
      next unnamed =>
        refine iff_of_true (isTypeName_of_isQualified qualified) fun overcut => ?_
        obtain ⟨own, named, -⟩ := overcut.late
        rw [unnamed] at named
        cases named
      next own named =>
        split
        next starts =>
          have inside := matchSegments_suffix qualified
            (List.drop_suffix (own.chars.length + 1) (withoutLeading name))
          refine (isTypeName_iff_of_inside inside).trans (not_congr ?_)
          refine ⟨fun late => ⟨notKeyword, uncovered, own, named, starts, late⟩, fun overcut => ?_⟩
          obtain ⟨_, named', -, late⟩ := overcut.late
          cases named.symm.trans named'
          exact late
        next apart =>
          have full : isTypeName (separator :: withoutLeading name) = true := by
            rw [isTypeName, if_pos (beq_self_eq_true _)]
            exact qualified
          refine iff_of_true full fun overcut => ?_
          obtain ⟨_, named', starts, -⟩ := overcut.late
          cases named.symm.trans named'
          exact apart starts

/-- Every form of a short text is a name. -/
theorem ShortForm.isTypeName {ns : Namespace} {bare text : List Char}
    (qualified : isQualified bare = true) (form : ns.ShortForm bare text) :
    Name.isTypeName text = true := by
  cases form with
  | @nick use front rest _ split =>
      have inside := matchSegments_suffix qualified ⟨front, split.symm⟩
      exact isTypeName_of_isQualified (isQualified_append use.1.valid inside)
  | relative _ split =>
      exact isTypeName_of_isQualified (isQualified_after_separator (split ▸ qualified))
  | whole => exact isTypeName_of_isQualified qualified
  | full =>
      rw [Name.isTypeName, if_pos (beq_self_eq_true _)]
      exact qualified

/-- A name that is cut evenly is not cut too late. -/
theorem not_overcut_of_cutsEvenly {ns : Namespace} {name : List Char}
    (valid : isTypeName name = true) (even : ns.CutsEvenly name) : ¬ns.Overcut name := by
  intro overcut
  have nonempty : name ≠ [] := by
    rintro rfl
    cases valid
  have form := shortForm_shorten nonempty overcut.notKeyword even
  exact (isTypeName_shorten valid).1 (form.isTypeName (isQualified_withoutLeading valid)) overcut

/-! ## Clauses -/

/-- The short text of a name as a name, where it is one. -/
def shortName (ns : Namespace) (name : TypeName) : TypeName :=
  (TypeName.ofWord? (Shortener.ofNamespace ns name.word)).getD name

theorem word_shortName {ns : Namespace} {name : TypeName} (fits : ¬ns.Overcut name.word.chars) :
    (ns.shortName name).word = Shortener.ofNamespace ns name.word := by
  have valid : isTypeName (Shortener.ofNamespace ns name.word).chars = true := by
    rw [Shortener.ofNamespace, Word.chars_ofChars]
    exact (isTypeName_shorten name.valid).2 fits
  rw [shortName, TypeName.ofWord?, dif_pos valid]
  rfl

/-- A clause of names that are not cut too late lists names, each written in full. -/
theorem nameClause_ofNamespace {ns : Namespace} {names : List TypeName}
    (fits : ∀ name ∈ names, ¬ns.Overcut name.word.chars) (keyword : String) :
    Declaration.nameClause (.ofNamespace ns) keyword names =
      Declaration.nameClause .full keyword (names.map ns.shortName) := by
  have same : names.map (fun name => (Shortener.ofNamespace ns name.word).chars) =
      (names.map ns.shortName).map fun name => (Shortener.full name.word).chars := by
    rw [List.map_map]
    refine List.map_congr_left fun name member => ?_
    exact congrArg Word.chars (word_shortName (fits name member)).symm
  rw [Declaration.nameClause, Declaration.nameClause, Declaration.nameList, Declaration.nameList,
    same, List.isEmpty_map]

theorem traitClause_ofNamespace {ns : Namespace} {use : TypeName × List Word}
    (fits : ¬ns.Overcut use.1.word.chars) (layout : Layout) :
    Declaration.traitClause (.ofNamespace ns) layout use =
      Declaration.traitClause .full layout (ns.shortName use.1, use.2) := by
  rw [Declaration.traitClause, Declaration.traitClause, ← word_shortName fits]
  rfl

/-- The short text of a name is a name exactly when the name is not cut too late, as no name is
that is cut evenly; and the clauses of such names, written inside the namespace, are those of
their short names. -/
theorem isTypeName_shorten_iff (ns : Namespace) :
    (∀ {name}, isTypeName name = true →
      (isTypeName (ns.shorten name) = true ↔ ¬ns.Overcut name) ∧
        (ns.CutsEvenly name → ¬ns.Overcut name)) ∧
    (∀ {names : List TypeName}, (∀ name ∈ names, ¬ns.Overcut name.word.chars) → ∀ keyword,
      Declaration.nameClause (.ofNamespace ns) keyword names =
        Declaration.nameClause .full keyword (names.map ns.shortName)) ∧
    ∀ {use : TypeName × List Word}, ¬ns.Overcut use.1.word.chars → ∀ layout,
      Declaration.traitClause (.ofNamespace ns) layout use =
        Declaration.traitClause .full layout (ns.shortName use.1, use.2) :=
  ⟨fun valid => ⟨isTypeName_shorten valid, not_overcut_of_cutsEvenly valid⟩,
    nameClause_ofNamespace, traitClause_ofNamespace⟩

/-- The namespace `Shop`, where the import of a logger is short. -/
def logging : Namespace :=
  ⟨some ⟨"Shop", by decide⟩,
    .ofList [(⟨.text "Logger", by decide⟩, ⟨"Psr\\Log\\Logger", by decide⟩)]⟩

/-- A name below the import, and one below the namespace. -/
def loggedNames : List TypeName :=
  [⟨.text "\\psr\\Log\\Logger\\Aware", by decide⟩, ⟨.text "Shop\\Model\\User", by decide⟩]

theorem nameClause_logging :
    Declaration.nameClause (.ofNamespace logging) "implements" loggedNames =
        "implements Logger\\Aware, Model\\User ".toList ∧
      ∀ name ∈ loggedNames, isTypeName (logging.shorten name.word.chars) = true := by
  obtain ⟨shorten, clause, -⟩ := isTypeName_shorten_iff logging
  have undotted : ∀ name ∈ loggedNames, Undotted name.word.chars := by decide +kernel
  have fits : ∀ name ∈ loggedNames, ¬logging.Overcut name.word.chars := by
    intro name member
    refine (shorten name.valid).2 (cutsEvenly_of_undotted (undotted name member) (by decide) ?_)
    intro own named
    cases named
    decide
  refine ⟨?_, fun name member => (shorten name.valid).1.2 (fits name member)⟩
  rw [clause fits]
  decide +kernel

/-- A namespace of two characters, and a name whose first segment is one character with that
lower case: nothing is left of the name. -/
theorem not_isTypeName_shorten_dotted :
    let ns : Namespace := ⟨some ⟨"i\u0307", by decide⟩, .empty⟩
    ofName? "i\u0307" = some ns ∧ isTypeName "\u0130\\B".toList = true ∧
      isTypeName (ns.shorten "\u0130\\B".toList) = false ∧
        Declaration.nameClause (.ofNamespace ns) "extends" [⟨.text "\u0130\\B", by decide⟩] =
          "extends  ".toList := by
  refine ⟨by rfl, by decide +kernel, by decide +kernel, by decide +kernel⟩

end Namespace

end PhpDecl
