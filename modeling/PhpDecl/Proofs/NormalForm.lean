import PhpDecl.Proofs.Margins
import PhpDecl.Proofs.Stripping

/-!
# The normal form of a text

A text is in normal form when it holds no control characters but tabs and line feeds, no line of it
ends in a space or a tab, and no line feed stands at either end. Normalizing leads to a text in
normal form and changes none that is, so that doing it again does nothing; and all ways of breaking
lines lead to the same (`normalize_normalForm`). What is written for a declaration is in normal
form.
-/

namespace PhpDecl.Text

/-- The text is in normal form. -/
structure IsNormal (text : List Char) : Prop where
  plain : ∀ c ∈ text, c = '\t' ∨ c = '\n' ∨ 0x20 ≤ c.toNat ∧ c.toNat ≠ 0x7f
  lineEnds : ∀ line ∈ lines text, line.getLast? ≠ some ' ' ∧ line.getLast? ≠ some '\t'
  opens : text.head? ≠ some '\n'
  closes : text.getLast? ≠ some '\n'

/-- The text with something else in the place of each line feed. -/
def withBreak (lineBreak text : List Char) : List Char :=
  text.flatMap fun c => if c = '\n' then lineBreak else [c]

/-! ## Characters that stay -/

theorem isStrayControl_eq_false_iff {c : Char} :
    isStrayControl c = false ↔ c = '\t' ∨ c = '\n' ∨ 0x20 ≤ c.toNat ∧ c.toNat ≠ 0x7f := by
  have number (d : Char) : c = d ↔ c.toNat = d.toNat :=
    ⟨congrArg Char.toNat, fun same => Char.ext (UInt32.toNat_inj.1 same)⟩
  have tab : '\t'.toNat = 9 := rfl
  have feed : '\n'.toNat = 10 := rfl
  rw [number '\t', number '\n', tab, feed]
  simp only [isStrayControl, Bool.or_eq_false_iff, Bool.and_eq_false_iff, decide_eq_false_iff_not,
    beq_eq_false_iff_ne]
  omega

theorem trimLineEnds_subset (text : List Char) : trimLineEnds text ⊆ text := by
  induction text with
  | nil => exact List.Subset.refl _
  | cons c text ih =>
      rw [trimLineEnds]
      split
      · exact List.subset_cons_of_subset _ ih
      · exact List.cons_subset_cons _ ih

/-- Trimming both ends takes line feeds off, and nothing else. -/
theorem exists_trimBreaks (text : List Char) : ∃ before behind,
    text = List.replicate before '\n' ++ (trimBreaks text ++ List.replicate behind '\n') := by
  have feeds {list : List Char} (all : list.all (· == '\n') = true) :
      list = List.replicate list.length '\n' :=
    List.eq_replicate_iff.2 ⟨rfl, fun c member => by simpa using List.all_eq_true.1 all c member⟩
  obtain ⟨⟨back, split, all⟩, -⟩ := dropEndWhile_spec (· == '\n') (text.dropWhile (· == '\n'))
  refine ⟨(text.takeWhile (· == '\n')).length, back.length, ?_⟩
  rw [← feeds List.all_takeWhile, ← feeds all, trimBreaks, ← split,
    List.takeWhile_append_dropWhile]

theorem head?_trimBreaks (text : List Char) : (trimBreaks text).head? ≠ some '\n' := by
  intro opens
  obtain ⟨⟨back, split, -⟩, -⟩ := dropEndWhile_spec (· == '\n') (text.dropWhile (· == '\n'))
  have first := List.head?_dropWhile_not (· == '\n') text
  rw [split, List.head?_append, ← trimBreaks, opens] at first
  cases first

theorem getLast?_trimBreaks (text : List Char) : (trimBreaks text).getLast? ≠ some '\n' := by
  intro closes
  have last := (dropEndWhile_spec (· == '\n') (text.dropWhile (· == '\n'))).2 _ closes
  cases last

/-- Line feeds at the ends stand for empty lines, so that trimming leaves lines of the text. -/
theorem lines_trimBreaks_subset (text : List Char) : lines (trimBreaks text) ⊆ lines text := by
  obtain ⟨before, behind, split⟩ := exists_trimBreaks text
  generalize trimBreaks text = kept at split
  rw [split]
  have front (n : Nat) (rest : List Char) : lines rest ⊆ lines (List.replicate n '\n' ++ rest) := by
    induction n with
    | zero => exact List.Subset.refl _
    | succ n ih =>
        rw [List.replicate_succ, List.cons_append, lines_feed]
        exact List.subset_cons_of_subset _ ih
  refine List.Subset.trans ?_ (front before _)
  cases behind with
  | zero => rw [List.replicate_zero, List.append_nil]; exact List.Subset.refl _
  | succ behind =>
      rw [List.replicate_succ, lines_append_feed]
      exact List.subset_append_left _ _

/-! ## Texts in normal form -/

theorem isNormal_normalize (text : List Char) : IsNormal (normalize text) := by
  refine ⟨fun c member => ?_, fun line member => ?_, head?_trimBreaks _, getLast?_trimBreaks _⟩
  · obtain ⟨before, behind, split⟩ := exists_trimBreaks (settleLines text)
    have settled : c ∈ settleLines text := by
      rw [split]
      exact List.mem_append_right _ (List.mem_append_left _ member)
    have kept := (List.mem_filter.1 (trimLineEnds_subset _ settled)).2
    exact isStrayControl_eq_false_iff.1 (by simpa using kept)
  · have trimmed := lines_trimBreaks_subset _ member
    rw [lines_trimLineEnds] at trimmed
    obtain ⟨raw, -, rfl⟩ := List.mem_map.1 trimmed
    have last := (dropEndWhile_spec isPad raw).2
    constructor
    · exact fun here => absurd (last ' ' here) (by decide)
    · exact fun here => absurd (last '\t' here) (by decide)

theorem unifyBreaks_eq_self {text : List Char} (noReturn : '\r' ∉ text) :
    unifyBreaks text = text := by
  induction text with
  | nil => rfl
  | cons c text ih =>
      obtain ⟨solid, others⟩ := not_or.1 (mt List.mem_cons.2 noReturn)
      rw [unifyBreaks_cons fun _ same => absurd same.symm solid, ih others,
        if_neg (by simpa using Ne.symm solid)]

theorem lines_injective : Function.Injective lines := by
  intro text other same
  rw [← List.append_left_inj ['\n'], ← flatMap_lines, same, flatMap_lines]

/-- Lines that end in no space or tab stay as they are. -/
theorem trimLineEnds_eq_self {text : List Char}
    (ends : ∀ line ∈ lines text, line.getLast? ≠ some ' ' ∧ line.getLast? ≠ some '\t') :
    trimLineEnds text = text := by
  refine lines_injective ?_
  rw [lines_trimLineEnds]
  refine (List.map_congr_left fun line member => ?_).trans (List.map_id _)
  obtain ⟨noSpace, noTab⟩ := ends line member
  rcases List.eq_nil_or_concat line with rfl | ⟨front, c, rfl⟩
  · rfl
  · rw [List.concat_eq_append, List.getLast?_concat] at noSpace noTab
    have ink : isPad c = false := by
      rw [isPad, Bool.or_eq_false_iff, beq_eq_false_iff_ne, beq_eq_false_iff_ne]
      exact ⟨fun same => noSpace (congrArg some same), fun same => noTab (congrArg some same)⟩
    rw [List.concat_eq_append]
    exact dropEndWhile_append_cons ink front []

/-- Normalizing changes no text in normal form. -/
theorem IsNormal.normalize_eq {text : List Char} (normal : IsNormal text) :
    normalize text = text := by
  have kept : ∀ c ∈ text, isStrayControl c = false := fun c member =>
    isStrayControl_eq_false_iff.2 (normal.plain c member)
  have noReturn : '\r' ∉ text := fun member => absurd (kept _ member) (by decide)
  have filtered : text.filter (!isStrayControl ·) = text :=
    List.filter_eq_self.2 fun c member => by rw [kept c member]; rfl
  rw [normalize, unifyBreaks_eq_self noReturn, filtered, trimLineEnds_eq_self normal.lineEnds]
  refine trimBreaks_eq_self ?_ ?_
  · have opens := normal.opens
    cases first : text.head? with
    | none => rfl
    | some c => simpa [first] using opens
  · have closes := normal.closes
    cases last : text.getLast? with
    | none => rfl
    | some c => simpa [last] using closes

/-! ## Ways of breaking lines -/

theorem unifyBreaks_withBreak_pair {text : List Char} (noReturn : '\r' ∉ text) :
    unifyBreaks (withBreak ['\r', '\n'] text) = text := by
  induction text with
  | nil => rfl
  | cons c text ih =>
      obtain ⟨solid, others⟩ := not_or.1 (mt List.mem_cons.2 noReturn)
      have ih := ih others
      rw [withBreak] at ih ⊢
      rw [List.flatMap_cons]
      by_cases feed : c = '\n'
      · subst feed
        exact congrArg ('\n' :: ·) ih
      · rw [if_neg feed, List.singleton_append,
          unifyBreaks_cons fun _ same => absurd same.symm solid, ih,
          if_neg (by simpa using Ne.symm solid)]

theorem unifyBreaks_withBreak_return {text : List Char} (noReturn : '\r' ∉ text) :
    unifyBreaks (withBreak ['\r'] text) = text := by
  have feedless (text : List Char) : '\n' ∉ withBreak ['\r'] text := by
    rw [withBreak, List.mem_flatMap]
    rintro ⟨c, -, member⟩
    split at member
    · cases List.mem_singleton.1 member
    · next feed => exact feed (List.mem_singleton.1 member).symm
  induction text with
  | nil => rfl
  | cons c text ih =>
      obtain ⟨solid, others⟩ := not_or.1 (mt List.mem_cons.2 noReturn)
      have split : withBreak ['\r'] (c :: text) =
          (if c = '\n' then '\r' else c) :: withBreak ['\r'] text := by
        rw [withBreak, List.flatMap_cons, ← withBreak]
        split <;> rfl
      -- No line feed is left that could make one break with a carriage return.
      have apart : ∀ rest, (if c = '\n' then '\r' else c) = '\r' →
          withBreak ['\r'] text = '\n' :: rest → False := fun rest _ same =>
        feedless text (same ▸ .head _)
      rw [split, unifyBreaks_cons apart, ih others]
      by_cases feed : c = '\n'
      · simp [feed]
      · simp [feed, Ne.symm solid]

theorem normalize_congr {text other : List Char} (same : unifyBreaks text = unifyBreaks other) :
    normalize text = normalize other := by
  rw [normalize, same, normalize]

/-! ## Declarations -/

/-- A declaration is written as a normalized text, and a line feed behind it when it has a name. -/
theorem exists_render_eq_normalize (d : PlainDeclaration) (shortener : Shortener)
    (layout : Layout) : ∃ code, d.render shortener layout =
      normalize code ++ if d.name.isSome then ['\n'] else [] := by
  refine ⟨d.commentText ++ d.header shortener ++ indent layout 1 (d.body shortener layout) ++ ['}'],
    ?_⟩
  rw [Declaration.render]
  split
  · rfl
  · rw [List.append_nil]

/-- Whatever is written for a declaration of whatever store, up to the line feed behind one with a
name, is in normal form. -/
theorem exists_normal_of_run_renderWith {store after : Store} {h : Handle .classType}
    {shortener : Option Shortener} {layout : Layout} {answer : Value}
    (written : (Op.renderWith (.classType h) shortener layout).run store = .ok answer after) :
    ∃ code, answer = .text (String.ofList (code ++
        if (store.plain h).name.isSome then ['\n'] else [])) ∧
      IsNormal code ∧ normalize code = code := by
  cases read : store.classComment h with
  | error fault =>
      rw [Op.run_renderWith_of_error read] at written
      cases written
  | ok comment =>
      rw [Op.run_renderWith_of_ok read] at written
      cases written
      obtain ⟨code, rendered⟩ := exists_render_eq_normalize (store.plain h)
        (shortener.getD (store.ownShortener h)) layout
      have normal := isNormal_normalize code
      refine ⟨normalize code, ?_, normal, normal.normalize_eq⟩
      rw [Store.renderClass, rendered]

/-- Normalizing leads to a text in normal form, and leaves a text as it is just when it is in normal
form; so doing it twice is doing it once. Carriage returns, with line feeds or without, are as good
as line feeds. And whatever is written for a declaration, up to the line feed behind one with a
name, is in normal form; in every session that steps lead to, something is. -/
theorem normalize_normalForm (text : List Char) :
    IsNormal (normalize text) ∧ (normalize text = text ↔ IsNormal text) ∧
      normalize (normalize text) = normalize text ∧
      ('\r' ∉ text → normalize (withBreak ['\r', '\n'] text) = normalize text ∧
        normalize (withBreak ['\r'] text) = normalize text) ∧
      (∀ {store after : Store} {h shortener layout answer},
        (Op.renderWith (.classType h) shortener layout).run store = .ok answer after →
          ∃ code, answer = .text (String.ofList (code ++
              if (store.plain h).name.isSome then ['\n'] else [])) ∧
            IsNormal code ∧ normalize code = code) ∧
      ∀ {session : Session}, session.Reachable → ∀ h shortener layout, ∃ code,
        (Op.renderWith (.classType h) shortener layout).run session.store =
          .ok (.text (String.ofList (code ++
            if (session.store.plain h).name.isSome then ['\n'] else []))) session.store ∧
        IsNormal code ∧ normalize code = code := by
  refine ⟨isNormal_normalize text, ⟨fun same => same ▸ isNormal_normalize text, (·.normalize_eq)⟩,
    (isNormal_normalize text).normalize_eq, fun noReturn => ⟨?_, ?_⟩,
    exists_normal_of_run_renderWith, ?_⟩
  · refine normalize_congr ?_
    rw [unifyBreaks_withBreak_pair noReturn, unifyBreaks_eq_self noReturn]
  · refine normalize_congr ?_
    rw [unifyBreaks_withBreak_return noReturn, unifyBreaks_eq_self noReturn]
  · intro session reachable h shortener layout
    obtain ⟨comment, read⟩ := Op.exists_classComment reachable.commented h
    have run := Op.run_renderWith_of_ok read shortener layout
    obtain ⟨code, written, normal⟩ := exists_normal_of_run_renderWith run
    exact ⟨code, written ▸ run, normal⟩

/-- A text in which every pass uncovers work for the next one. -/
def uncovering : List Char := "\n\ta;  \x00\n \x7f\n\n".toList

theorem normalize_normalForm_uncovering :
    '\r' ∉ uncovering ∧ Session.braced.Reachable ∧
      IsNormal (normalize uncovering) ∧ normalize uncovering = "\ta;".toList ∧
      normalize (withBreak ['\r', '\n'] uncovering) = "\ta;".toList ∧
      normalize (withBreak ['\r'] uncovering) = "\ta;".toList ∧
      (∃ code, (Op.renderWith (.classType ⟨0⟩) none .standard).run Session.braced.store =
          .ok (.text (String.ofList (code ++
            if (Session.braced.store.plain ⟨0⟩).name.isSome then ['\n'] else [])))
            Session.braced.store ∧ IsNormal code ∧ normalize code = code) ∧
      ∃ answer after, (Op.renderWith (.classType ⟨0⟩) none .standard).run Session.braced.store =
          .ok answer after ∧
        ∃ code, answer = .text (String.ofList (code ++
            if (Session.braced.store.plain ⟨0⟩).name.isSome then ['\n'] else [])) ∧
          IsNormal code ∧ normalize code = code := by
  have noReturn : '\r' ∉ uncovering := by decide
  have reachable : Session.braced.Reachable := Session.Reachable.start.after (by decide)
  have kept : normalize uncovering = "\ta;".toList := by decide
  obtain ⟨normal, -, -, breaks, written, declared⟩ := normalize_normalForm uncovering
  obtain ⟨pairs, returns⟩ := breaks noReturn
  obtain ⟨code, run, fixed⟩ := declared reachable ⟨0⟩ none .standard
  exact ⟨noReturn, reachable, normal, kept, pairs.trans kept, returns.trans kept,
    ⟨code, run, fixed⟩, _, _, run, written run⟩

end PhpDecl.Text
