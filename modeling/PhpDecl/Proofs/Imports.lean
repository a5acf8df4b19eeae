import PhpDecl.Proofs.Arenas
import PhpDecl.Proofs.Entries
import PhpDecl.Proofs.Keeps
import PhpDecl.Proofs.Resolution
import PhpDecl.Session

/-!
# The imports of a namespace

What a call to import a name does is told by the name, by the alias that is chosen for it and by
what the alias stands for in the table (`Namespace.Outcome`). No call moves an alias that is in
the table, or lets it stand for a name that differs in more than the case of letters. So an alias
stays where it was first written, whatever the number of calls, and stands for one name up to case
(`Store.imports_after`).
-/

namespace PhpDecl

open Name Text

/-- A call that imports a name, under an alias if one is given. -/
structure ImportCall where
  name : Word
  nick : Option Word

namespace ImportCall

/-- The name that is imported: separators in front of it do not count. -/
def imported (call : ImportCall) : List Char := withoutLeading call.name.chars

/-- The alias that is given, or the last segment of the imported name. -/
def chosen (call : ImportCall) : List Char :=
  match call.nick with
  | none => lastSegment call.imported
  | some nick => nick.chars

/-- The alias of the call stands for another name, and not just for one in other letter case. -/
def Conflicts (call : ImportCall) (ns : Namespace) : Prop :=
  ∃ use ∈ ns.uses.entries,
    use.1.word.chars = call.chosen ∧ lower use.2.chars ≠ lower call.imported

/-- Ask a namespace for the import. -/
def ask (call : ImportCall) (h : Handle .scope) : Op Value :=
  Op.ask (.scope h) .addUse (.word call.name :: (call.nick.map Value.word).toList)

/-- An alias that is given as null is none. -/
theorem ask_null (name : Word) (h : Handle .scope) :
    Op.ask (.scope h) .addUse [.word name, .null] = (⟨name, none⟩ : ImportCall).ask h := rfl

end ImportCall

theorem Label.beq_iff {a b : Label} : (a == b) = true ↔ a.word.chars = b.word.chars := by
  rw [Word.chars, Word.chars, String.toList_inj]
  exact Word.beq_iff

namespace Namespace

variable {ns after : Namespace} {call : ImportCall}

/-- What a namespace answers to a call. -/
inductive Outcome (ns : Namespace) (call : ImportCall) : Except UseFault Namespace → Prop
  | invalidName (malformed : isQualified call.imported = false) :
      Outcome ns call (.error (.invalidName (String.ofList call.imported)))
  | invalidAlias {nick : Word} (qualified : isQualified call.imported = true)
      (given : call.nick = some nick) (malformed : isIdentifier nick.chars = false) :
      Outcome ns call (.error (.invalidAlias nick))
  | taken {nick : Label} {existing name : QualifiedName} (chosen : nick.word.chars = call.chosen)
      (imports : name.chars = call.imported) (found : ns.uses.get? nick = some existing)
      (other : lower existing.chars ≠ lower name.chars) :
      Outcome ns call (.error (.aliasTaken nick existing name))
  | bound {nick : Label} {name : QualifiedName} (chosen : nick.word.chars = call.chosen)
      (imports : name.chars = call.imported)
      (free : ∀ existing, ns.uses.get? nick = some existing →
        lower existing.chars = lower name.chars) :
      Outcome ns call (.ok { ns with uses := ns.uses.upsert nick name })

theorem outcome_bindAlias {nick : Label} {name : QualifiedName}
    (chosen : nick.word.chars = call.chosen) (imports : name.chars = call.imported) :
    Outcome ns call (ns.bindAlias nick name) := by
  unfold bindAlias
  split
  next existing found =>
    split
    next same =>
      refine .bound chosen imports fun other alsoFound => ?_
      cases found.symm.trans alsoFound
      exact eq_of_beq same
    next other => exact .taken chosen imports found (by simpa using other)
  next none =>
    refine .bound chosen imports fun existing found => ?_
    cases none.symm.trans found

theorem importedName_eq (call : ImportCall) :
    importedName call.name.toText =
      if valid : isQualified call.imported = true then
        .ok ⟨String.ofList call.imported, by simpa using valid⟩
      else .error (.invalidName (String.ofList call.imported)) := by
  have bare : withoutLeading call.name.toText.toList = call.imported := rfl
  rw [importedName, bare, QualifiedName.ofString?]
  by_cases valid : isQualified call.imported = true
  · have read : isQualified (String.ofList call.imported).toList = true := by simpa using valid
    rw [dif_pos read, dif_pos valid]
  · have unread : ¬isQualified (String.ofList call.imported).toList = true := by simpa using valid
    rw [dif_neg unread, dif_neg valid]

/-- The name is looked at first, then an alias that is given, and the table last. -/
theorem outcome_addUse (ns : Namespace) (call : ImportCall) :
    Outcome ns call (ns.addUse call.name.toText call.nick) := by
  rw [addUse, importedName_eq]
  by_cases valid : isQualified call.imported = true
  · rw [dif_pos valid]
    change Outcome ns call (aliasFor _ call.nick >>= fun nick => ns.bindAlias nick _)
    have imports : (String.ofList call.imported).toList = call.imported := String.toList_ofList
    cases given : call.nick with
    | none =>
        refine outcome_bindAlias ?_ imports
        rw [ImportCall.chosen, given]
        change (String.ofList (lastSegment (String.ofList call.imported).toList)).toList = _
        rw [String.toList_ofList, imports]
    | some nick =>
        rw [aliasFor, Label.ofWord?]
        by_cases identifier : isIdentifier nick.chars = true
        · rw [dif_pos identifier]
          refine outcome_bindAlias ?_ imports
          rw [ImportCall.chosen, given]
        · rw [dif_neg identifier]
          exact .invalidAlias valid given (by simpa using identifier)
  · rw [dif_neg valid]
    exact .invalidName (by simpa using valid)

/-- The alias conflicts just when the table has it for another name. -/
theorem conflicts_iff {nick : Label} {name : QualifiedName} (chosen : nick.word.chars = call.chosen)
    (imports : name.chars = call.imported) : call.Conflicts ns ↔
      ∃ existing, ns.uses.get? nick = some existing ∧
        lower existing.chars ≠ lower name.chars := by
  rw [ImportCall.Conflicts, ← chosen, ← imports]
  constructor
  · rintro ⟨⟨other, existing⟩, member, alike, differs⟩
    exact ⟨existing, OrderedMap.get?_of_mem member (Label.beq_iff.2 alike), differs⟩
  · rintro ⟨existing, found, differs⟩
    obtain ⟨use, member, rfl, alike⟩ := Entries.mem_of_find? found
    exact ⟨use, member, Label.beq_iff.1 alike, differs⟩

/-- A call is accepted just when what it gives is well formed, and the alias does not conflict. -/
theorem exists_addUse_iff : (∃ after, ns.addUse call.name.toText call.nick = .ok after) ↔
    isQualified call.imported = true ∧ isIdentifier call.chosen = true ∧ ¬call.Conflicts ns := by
  have outcome := outcome_addUse ns call
  generalize ns.addUse call.name.toText call.nick = answer at outcome
  cases outcome with
  | invalidName malformed => simp [malformed]
  | invalidAlias qualified given malformed => simp [ImportCall.chosen, given, malformed]
  | taken chosen imports found other =>
      have conflicts := (conflicts_iff chosen imports).2 ⟨_, found, other⟩
      simp [conflicts]
  | @bound nick name chosen imports free =>
      refine iff_of_true ⟨_, rfl⟩ ⟨imports ▸ name.valid, chosen ▸ nick.valid, fun conflicts => ?_⟩
      obtain ⟨existing, found, other⟩ := (conflicts_iff chosen imports).1 conflicts
      exact other (free existing found)

/-- Every alias of the first namespace has its position in the second one, and stands for the same
name up to the case of letters. -/
structure Extends (ns after : Namespace) : Prop where
  name : after.name = ns.name
  uses : ∀ {i : Nat} {nick : Label} {name : QualifiedName}, ns.uses.entries[i]? =
    some (nick, name) → ∃ other : QualifiedName, after.uses.entries[i]? = some (nick, other) ∧
      lower other.chars = lower name.chars

theorem Extends.refl (ns : Namespace) : ns.Extends ns where
  name := rfl
  uses here := ⟨_, here, rfl⟩

theorem Extends.trans {later : Namespace} (first : ns.Extends after)
    (second : after.Extends later) : ns.Extends later where
  name := second.name.trans first.name
  uses here := by
    obtain ⟨between, there, same⟩ := first.uses here
    obtain ⟨other, last, alike⟩ := second.uses there
    exact ⟨other, last, alike.trans same⟩

/-- One call moves no alias, and lets none stand for another name. -/
theorem extends_of_addUse (accepted : ns.addUse call.name.toText call.nick = .ok after) :
    ns.Extends after := by
  have outcome := outcome_addUse ns call
  rw [accepted] at outcome
  cases outcome with
  | bound chosen imports free =>
      refine ⟨rfl, fun {i nick name} here => ?_⟩
      rcases Entries.getElem?_upsert here with stayed | ⟨found, replaced⟩
      · exact ⟨name, stayed, rfl⟩
      · exact ⟨_, replaced, (free name found).symm⟩

/-- After a call that is accepted the alias stands for the name. -/
theorem exists_mem_addUse (accepted : ns.addUse call.name.toText call.nick = .ok after) :
    ∃ use ∈ after.uses.entries,
      use.1.word.chars = call.chosen ∧ use.2.chars = call.imported := by
  have outcome := outcome_addUse ns call
  rw [accepted] at outcome
  cases outcome with
  | @bound nick name chosen imports free =>
      obtain ⟨use, member, rfl, alike⟩ :=
        Entries.mem_of_find? (OrderedMap.get?_upsert_self ns.uses nick name)
      exact ⟨use, member, (Label.beq_iff.1 alike).trans chosen, imports⟩

/-- An import that is in the table after a call was there before, or is the one of the call. -/
theorem of_mem_addUse (accepted : ns.addUse call.name.toText call.nick = .ok after)
    {use : Label × QualifiedName} (member : use ∈ after.uses.entries) :
    use ∈ ns.uses.entries ∨ use.1.word.chars = call.chosen ∧ use.2.chars = call.imported := by
  have outcome := outcome_addUse ns call
  rw [accepted] at outcome
  cases outcome with
  | bound chosen imports free =>
      refine (Entries.of_mem_upsert member).imp_right fun ⟨name, alike⟩ => ⟨?_, name ▸ imports⟩
      rcases alike with rfl | alike
      · exact chosen
      · exact (Label.beq_iff.1 alike).trans chosen

end Namespace

/-! ## Runs of calls -/

/-- The store after calls one after the other, accepted and refused ones. -/
def Store.afterImports (store : Store) (h : Handle .scope) (calls : List ImportCall) : Store :=
  calls.foldl (fun store call => (call.ask h).left store) store

/-- An import that is accepted puts the new table in place, and a refused one leaves the store. -/
theorem Op.run_addUse (h : Handle .scope) (name : String) (nick : Option Word) (store : Store) :
    (Op.addUse h name ((nick.map Value.word).getD .null)).run store =
      match (store.scopes.get h).addUse name nick with
      | .ok ns => .ok () { store with scopes := store.scopes.set h ns }
      | .error fault => .error (.ofUse fault) store := by
  have stored : (get : Op Store).run store = .ok store store := rfl
  have read : addUse h name ((nick.map Value.word).getD .null) = get >>= fun store =>
      ofUse ((store.scopes.get h).addUse name nick) >>= fun ns =>
        modify fun store => { store with scopes := store.scopes.set h ns } := by
    cases nick <;> rfl
  rw [read, run_bind_ok stored]
  cases (store.scopes.get h).addUse name nick <;> rfl

namespace ImportCall

variable {call : ImportCall} {h : Handle .scope} {store : Store}

theorem ask_eq (call : ImportCall) (h : Handle .scope) : call.ask h =
    (Op.addUse h call.name.toText ((call.nick.map Value.word).getD .null) >>= fun _ =>
      pure (.scope h)) := by
  obtain ⟨name, nick⟩ := call
  cases nick <;> rfl

theorem run_ask_of_ok {ns : Namespace}
    (accepted : (store.scopes.get h).addUse call.name.toText call.nick = .ok ns) :
    (call.ask h).run store = .ok (.scope h) { store with scopes := store.scopes.set h ns } := by
  have ran := Op.run_addUse h call.name.toText call.nick store
  rw [accepted] at ran
  rw [ask_eq, Op.run_bind_ok ran]
  rfl

theorem run_ask_of_error {fault : Namespace.UseFault}
    (refused : (store.scopes.get h).addUse call.name.toText call.nick = .error fault) :
    (call.ask h).run store = .error (.ofUse fault) store := by
  have ran := Op.run_addUse h call.name.toText call.nick store
  rw [refused] at ran
  rw [ask_eq, Op.run_bind_error ran]

/-- A call leaves the store as it is, or with the new table in place. -/
theorem left_ask (call : ImportCall) (h : Handle .scope) (store : Store) :
    (call.ask h).left store = store ∨
      ∃ ns, (store.scopes.get h).addUse call.name.toText call.nick = .ok ns ∧
        (call.ask h).left store = { store with scopes := store.scopes.set h ns } := by
  rw [Op.left]
  cases answer : (store.scopes.get h).addUse call.name.toText call.nick with
  | ok ns => exact .inr ⟨ns, rfl, by rw [run_ask_of_ok answer]⟩
  | error fault => exact .inl (by rw [run_ask_of_error answer])

theorem has_left (made : store.scopes.Has h) : ((call.ask h).left store).scopes.Has h := by
  rcases left_ask call h store with same | ⟨ns, -, same⟩
  · rwa [same]
  · rw [same, Arena.Has, Arena.size_set]
    exact made

theorem extends_left (call : ImportCall) (h : Handle .scope) (store : Store) :
    (store.scopes.get h).Extends (((call.ask h).left store).scopes.get h) := by
  rcases left_ask call h store with same | ⟨ns, accepted, same⟩
  · rw [same]
    exact .refl _
  · rw [same]
    rcases store.scopes.get_set_or h h ns with stayed | ⟨-, replaced⟩
    · rw [stayed]
      exact .refl _
    · rw [replaced]
      exact Namespace.extends_of_addUse accepted

theorem of_mem_left {use : Label × QualifiedName}
    (member : use ∈ (((call.ask h).left store).scopes.get h).uses.entries) :
    use ∈ (store.scopes.get h).uses.entries ∨
      use.1.word.chars = call.chosen ∧ use.2.chars = call.imported := by
  rcases left_ask call h store with same | ⟨ns, accepted, same⟩
  · exact .inl (same ▸ member)
  · rw [same] at member
    rcases Arena.of_mem_get_set (fun ns : Namespace => ns.uses.entries) member with old | ⟨-, new⟩
    · exact .inl old
    · exact Namespace.of_mem_addUse accepted new

/-- What a namespace makes of a call. -/
structure Answered (call : ImportCall) (h : Handle .scope) (store : Store) : Prop where
  /-- A call that is refused changes nothing. -/
  refused : ∀ {fault after}, (call.ask h).run store = .error fault after → after = store
  /-- After a call that is accepted the alias stands for the name. -/
  bound : ∀ {answer after}, (call.ask h).run store = .ok answer after →
    ∃ use ∈ (after.scopes.get h).uses.entries,
      use.1.word.chars = call.chosen ∧ use.2.chars = call.imported
  /-- A call is accepted just when its name and its alias are well formed and do not conflict. -/
  accepted : (∃ answer after, (call.ask h).run store = .ok answer after) ↔
    isQualified call.imported = true ∧ isIdentifier call.chosen = true ∧
      ¬call.Conflicts (store.scopes.get h)
  /-- An alias that is derived from a name is well formed, so that nothing but a conflict speaks
  against it. -/
  derived : call.nick = none → isQualified call.imported = true →
    isIdentifier call.chosen = true ∧
      ((∃ fault after, (call.ask h).run store = .error fault after) ↔
        call.Conflicts (store.scopes.get h))

theorem exists_run_ask_iff :
    (∃ answer after, (call.ask h).run store = .ok answer after) ↔
      isQualified call.imported = true ∧ isIdentifier call.chosen = true ∧
        ¬call.Conflicts (store.scopes.get h) := by
  rw [← Namespace.exists_addUse_iff]
  constructor
  · rintro ⟨answer, after, ran⟩
    cases outcome : (store.scopes.get h).addUse call.name.toText call.nick with
    | ok ns => exact ⟨ns, rfl⟩
    | error fault => cases (run_ask_of_error outcome).symm.trans ran
  · rintro ⟨ns, outcome⟩
    exact ⟨_, _, run_ask_of_ok outcome⟩

theorem answered (made : store.scopes.Has h) (call : ImportCall) : call.Answered h store where
  refused {fault after} ran := by
    cases outcome : (store.scopes.get h).addUse call.name.toText call.nick with
    | ok ns => cases (run_ask_of_ok outcome).symm.trans ran
    | error fault =>
        cases (run_ask_of_error outcome).symm.trans ran
        rfl
  bound {answer after} ran := by
    cases outcome : (store.scopes.get h).addUse call.name.toText call.nick with
    | ok ns =>
        cases (run_ask_of_ok outcome).symm.trans ran
        obtain ⟨use, member, told⟩ := Namespace.exists_mem_addUse outcome
        exact ⟨use, (congrArg (use ∈ ·.uses.entries) (Arena.get_set_self made ns)).mpr member, told⟩
    | error fault => cases (run_ask_of_error outcome).symm.trans ran
  accepted := exists_run_ask_iff
  derived none qualified := by
    have identifier : isIdentifier call.chosen = true := by
      rw [chosen, none]
      exact isIdentifier_lastSegment qualified
    refine ⟨identifier, ?_⟩
    have accepts : (∃ answer after, (call.ask h).run store = .ok answer after) ↔ _ :=
      exists_run_ask_iff
    rw [and_iff_right qualified, and_iff_right identifier] at accepts
    cases ran : (call.ask h).run store with
    | ok answer after => simpa [ran] using accepts
    | error fault after => simpa [ran] using accepts

end ImportCall

namespace Store

variable {store : Store} {h : Handle .scope}

theorem has_afterImports (made : store.scopes.Has h) (calls : List ImportCall) :
    (store.afterImports h calls).scopes.Has h := by
  induction calls generalizing store with
  | nil => exact made
  | cons call calls ih => exact ih (ImportCall.has_left made)

theorem extends_afterImports (store : Store) (h : Handle .scope) (calls : List ImportCall) :
    (store.scopes.get h).Extends ((store.afterImports h calls).scopes.get h) := by
  induction calls generalizing store with
  | nil => exact .refl _
  | cons call calls ih => exact (ImportCall.extends_left call h store).trans (ih _)

theorem of_mem_afterImports {calls : List ImportCall} {use : Label × QualifiedName}
    (member : use ∈ ((store.afterImports h calls).scopes.get h).uses.entries) :
    use ∈ (store.scopes.get h).uses.entries ∨
      ∃ call ∈ calls, use.1.word.chars = call.chosen ∧ use.2.chars = call.imported := by
  induction calls generalizing store with
  | nil => exact .inl member
  | cons call calls ih =>
      rcases ih member with first | ⟨later, inside, same⟩
      · exact (ImportCall.of_mem_left first).imp_right fun same => ⟨call, .head _, same⟩
      · exact .inr ⟨later, .tail _ inside, same⟩

/-- After any calls for imports, accepted and refused ones: every alias is an identifier and every
imported name a qualified one with no separator in front, and both come from a call, unless they
were there before. From each moment to each later one an alias keeps its position, and stands for
the same name up to the case of letters. A call that is refused changes nothing; one without an
alias derives an identifier from a well-formed name, so that it is refused just when that stands for
another name. -/
theorem imports_after (made : store.scopes.Has h) (calls : List ImportCall) :
    (∀ use ∈ ((store.afterImports h calls).scopes.get h).uses.entries,
      isIdentifier use.1.word.chars = true ∧ isQualified use.2.chars = true ∧
        use.2.chars.head? ≠ some separator ∧
        (use ∈ (store.scopes.get h).uses.entries ∨
          ∃ call ∈ calls, use.1.word.chars = call.chosen ∧ use.2.chars = call.imported)) ∧
    (∀ earlier later, calls = earlier ++ later →
      ((store.afterImports h earlier).scopes.get h).Extends
        ((store.afterImports h calls).scopes.get h)) ∧
    ∀ call : ImportCall, call.Answered h (store.afterImports h calls) := by
  refine ⟨fun use member => ⟨use.1.valid, use.2.valid,
    Namespace.head?_ne_of_isQualified use.2.valid, of_mem_afterImports member⟩, ?_, ?_⟩
  · rintro earlier later rfl
    rw [afterImports, afterImports, List.foldl_append]
    exact extends_afterImports _ h later
  · exact ImportCall.answered (has_afterImports made calls)

end Store

namespace Session

/-- A store with one namespace, the global one. -/
def unimported : Store := (start.run ⟨.newScope "", some "global", .prompt⟩).1.store

/-- The first call, one that conflicts with it, the same in other letters, one of a malformed name,
and one that derives another alias. -/
def repeatedImports : List ImportCall :=
  [⟨.text "Other\\User", none⟩, ⟨.text "Shop\\User", none⟩,
    ⟨.text "\\other\\USER", some (.text "User")⟩, ⟨.text "Other\\2nd", none⟩,
    ⟨.text "Other\\User\\Role", none⟩]

/-- After all of the calls the alias of the first one has its position, and stands for the same
name in other letters; and the second call is refused again. -/
theorem imports_repeated :
    let store := unimported.afterImports ⟨0⟩ repeatedImports
    (∃ other : QualifiedName, other.text = "other\\USER" ∧
      (store.scopes.get ⟨0⟩).uses.entries[0]? = some (⟨.text "User", by decide⟩, other) ∧
      lower other.chars = lower "Other\\User".toList) ∧
    ∃ fault after, ((⟨.text "Shop\\User", none⟩ : ImportCall).ask ⟨0⟩).run store =
      .error fault after ∧ after = store := by
  have made : unimported.scopes.Has ⟨0⟩ := by
    change 0 < unimported.scopes.size
    decide +kernel
  have first : ((unimported.afterImports ⟨0⟩ [⟨.text "Other\\User", none⟩]).scopes.get
      ⟨0⟩).uses.entries[0]? =
        some (⟨.text "User", by decide⟩, ⟨"Other\\User", by decide⟩) := by
    decide +kernel
  have last : ((unimported.afterImports ⟨0⟩ repeatedImports).scopes.get
      ⟨0⟩).uses.entries[0]?.map (·.2.text) = some "other\\USER" := by
    decide +kernel
  obtain ⟨-, kept, answered⟩ := Store.imports_after made repeatedImports
  obtain ⟨other, here, same⟩ := (kept [_] _ rfl).uses first
  dsimp only
  -- From here on nothing is told of the store but what it holds, so that it is not computed again.
  generalize unimported.afterImports ⟨0⟩ repeatedImports = store at here last answered ⊢
  have spelled : other.text = "other\\USER" := by
    rw [here] at last
    exact Option.some.inj last
  have conflicts : (⟨.text "Shop\\User", none⟩ : ImportCall).Conflicts (store.scopes.get ⟨0⟩) := by
    refine ⟨_, List.mem_of_getElem? here, ?_, ?_⟩
    · change "User".toList = _
      decide +kernel
    · change lower other.chars ≠ _
      rw [same]
      decide +kernel
  have shop := answered ⟨.text "Shop\\User", none⟩
  obtain ⟨fault, after, ran⟩ := (shop.derived rfl (by decide)).2.2 conflicts
  exact ⟨⟨other, spelled, here, same⟩, fault, after, ran, shop.refused ran⟩

end Session

end PhpDecl
