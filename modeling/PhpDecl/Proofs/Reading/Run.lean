import PhpDecl.Proofs.Reading.Number
import PhpDecl.Proofs.Reading.Quoted

/-!
# Running the reader over a text

`Leads text before after` says that a text takes the reader from one state to another, whatever
stands behind it, as long as a word at its end does not go on there. Texts are put together
by these rules: one for each token, one for layout, and one for a text in front of another.
-/

namespace PhpDecl.Reading

open Text

/-! ## Tokens in front of a text -/

theorem startsInWord_append {text rest : List Char} (first : startsInWord text = false)
    (second : startsInWord rest = false) : startsInWord (text ++ rest) = false := by
  cases text with
  | nil => exact second
  | cons c text => exact first

theorem tokens_layoutChar {c : Char} (rest : List Char) (h : isLayout c = true) :
    tokens (c :: rest) = tokens rest := by
  have differs {d : Char} (other : isLayout d = false) : c ≠ d := by
    rintro rfl
    rw [other] at h
    cases h
  rw [tokens, if_pos h]
  · exact differs (by decide)
  · exact differs (by decide)
  · exact differs (by decide)
  · intro others same
    exact absurd same (differs (by decide))
  · exact differs (by decide)
  · exact differs (by decide)

theorem tokens_wordChar {c : Char} (rest : List Char) (h : isWordChar c = true) :
    tokens (c :: rest) = (tokens rest).map (Token.spell c (startsInWord rest)) := by
  have differs {d : Char} (other : isWordChar d = false) : c ≠ d := by
    rintro rfl
    rw [other] at h
    cases h
  have ink : isLayout c = false := by
    refine Bool.eq_false_iff.2 fun layout => ?_
    simp only [isLayout, Bool.or_eq_true, beq_iff_eq] at layout
    rcases layout with ((same | same) | same) | same
    all_goals exact differs (by decide) same
  rw [tokens, ink, if_neg Bool.false_ne_true, if_pos h]
  · exact differs (by decide)
  · exact differs (by decide)
  · exact differs (by decide)
  · intro others same
    exact absurd same (differs (by decide))
  · exact differs (by decide)
  · exact differs (by decide)

/-- A word is one token where it does not go on. -/
theorem tokens_word {letters : List Char} (word : isWord letters = true) {rest : List Char}
    (ends : startsInWord rest = false) :
    tokens (letters ++ rest) = (tokens rest).map (.word letters :: ·) := by
  induction letters with
  | nil => cases word
  | cons c letters ih =>
      have wordChar : isWordChar c = true := by
        simp only [isWord, List.all_cons, Bool.and_eq_true] at word
        exact word.2.1
      -- The last letter starts the token, and each one before it is put in front.
      rw [List.cons_append, tokens_wordChar _ wordChar]
      cases letters with
      | nil =>
          rw [List.nil_append, ends]
          refine congrArg (Option.map · (tokens rest)) (funext fun tokens => ?_)
          unfold Token.spell
          split <;> rfl
      | cons d letters =>
          have goesOn : isWord (d :: letters) = true := by
            simp only [isWord, List.all_cons, Bool.and_eq_true] at word ⊢
            exact ⟨rfl, word.2.2⟩
          have starts : startsInWord (d :: letters ++ rest) = true := by
            simp only [isWord, List.all_cons, Bool.and_eq_true] at word
            exact word.2.2.1
          rw [ih goesOn, starts, Option.map_map]
          rfl

/-! ## Texts that lead from state to state -/

/-- Whatever follows, the text takes the reader from one state to another. -/
def Leads (text : List Char) (before after : Machine) : Prop :=
  ∃ cut : List Token,
    (∀ rest, startsInWord rest = false → tokens (text ++ rest) = (tokens rest).map (cut ++ ·)) ∧
      cut.foldlM Machine.accept before = some after

namespace Leads

theorem nil (machine : Machine) : Leads [] machine machine :=
  ⟨[], fun _ _ => Option.map_id'.symm, rfl⟩

/-- A text in front of another that does not go on its last word. -/
theorem append {first second : List Char} {before between after : Machine}
    (one : Leads first before between) (two : Leads second between after)
    (apart : startsInWord second = false) : Leads (first ++ second) before after := by
  obtain ⟨cut, cutOne, runOne⟩ := one
  obtain ⟨others, cutTwo, runTwo⟩ := two
  refine ⟨cut ++ others, fun rest ends => ?_, ?_⟩
  · rw [List.append_assoc, cutOne _ (startsInWord_append apart ends), cutTwo rest ends,
      Option.map_map]
    refine congrArg (Option.map · (tokens rest)) (funext fun tokens => ?_)
    exact (List.append_assoc cut others tokens).symm
  · rw [List.foldlM_append, runOne]
    exact runTwo

/-- A single token that does not depend on what follows. -/
theorem token (sign : List Char) {text : List Char} {token : Token} {before between after : Machine}
    (cut : ∀ rest, tokens (sign ++ rest) = (tokens rest).map (token :: ·))
    (step : before.accept token = some between) (next : Leads text between after) :
    Leads (sign ++ text) before after := by
  obtain ⟨others, cutText, run⟩ := next
  refine ⟨token :: others, fun rest ends => ?_, ?_⟩
  · rw [List.append_assoc, cut, cutText rest ends, Option.map_map]
    rfl
  · rw [List.foldlM_cons, step]
    exact run

/-- Spaces, tabs and line breaks count for nothing. -/
theorem layout (margin : List Char) {text : List Char} {before after : Machine}
    (blank : margin.all isLayout = true) (next : Leads text before after) :
    Leads (margin ++ text) before after := by
  obtain ⟨cut, cutText, run⟩ := next
  refine ⟨cut, fun rest ends => ?_, run⟩
  rw [List.append_assoc, ← cutText rest ends]
  induction margin with
  | nil => rfl
  | cons c margin ih =>
      rw [List.all_cons, Bool.and_eq_true] at blank
      rw [List.cons_append, tokens_layoutChar _ blank.1, ih blank.2]

theorem opening {text : List Char} {frames : List Frame} {after : Machine}
    (next : Leads text (.reading (.opened :: frames)) after) :
    Leads ('[' :: text) (.reading frames) after :=
  token ['['] (fun _ => by rw [List.cons_append, List.nil_append, tokens]) rfl next

theorem closing {text : List Char} {frame : Frame} {outer : List Frame} {result : Reading}
    {between after : Machine} (closed : frame.close = some result)
    (put : (Machine.reading outer).put result = some between) (next : Leads text between after) :
    Leads (']' :: text) (.reading (frame :: outer)) after := by
  refine token [']'] (fun _ => by rw [List.cons_append, List.nil_append, tokens]) ?_ next
  rw [Machine.accept, closed]
  exact put

theorem comma {text : List Char} {frame completed : Frame} {outer : List Frame} {after : Machine}
    (complete : frame.complete = some completed)
    (next : Leads text (.reading (completed :: outer)) after) :
    Leads (',' :: text) (.reading (frame :: outer)) after := by
  refine token [','] (fun _ => by rw [List.cons_append, List.nil_append, tokens]) ?_ next
  rw [Machine.accept, Machine.change, complete, Option.map_some]

theorem arrow {text : List Char} {frame pointed : Frame} {outer : List Frame} {after : Machine}
    (point : frame.point = some pointed)
    (next : Leads text (.reading (pointed :: outer)) after) :
    Leads ('=' :: '>' :: text) (.reading (frame :: outer)) after := by
  refine token ['=', '>']
    (fun _ => by rw [List.cons_append, List.cons_append, List.nil_append, tokens]) ?_ next
  rw [Machine.accept, Machine.change, point, Option.map_some]

end Leads

/-! ## Texts of values -/

/-- Wherever a value may stand, the text is read as this value. -/
def Spells (text : List Char) (reading : Reading) : Prop :=
  ∀ frames after, (Machine.reading frames).put reading = some after →
    Leads text (.reading frames) after

theorem spells_word {letters : List Char} {reading : Reading}
    (value : ofWord? letters = some reading) : Spells letters reading := by
  intro frames after put
  refine ⟨[.word letters], fun rest ends => tokens_word (isWord_of_ofWord? value) ends, ?_⟩
  rw [List.foldlM_cons, Machine.accept, value]
  simpa using put

theorem spells_encode (content : List Char) : Spells (Quoted.encode content) (.text content) := by
  intro frames after put
  refine ⟨[.text content], fun rest _ => tokens_encode content rest, ?_⟩
  rw [List.foldlM_cons, Machine.accept]
  simpa using put

/-- What spells a value is read as that value. -/
theorem Spells.ofText? {text : List Char} {reading : Reading} (h : Spells text reading) :
    ofText? text = some reading := by
  obtain ⟨cut, cuts, run⟩ := h [] (.finished reading) rfl
  have whole : tokens text = some cut := by
    simpa [tokens] using cuts [] rfl
  rw [Reading.ofText?, whole]
  simp [run, Machine.result?]

end PhpDecl.Reading
