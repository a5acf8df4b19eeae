import PhpDecl.Proofs.Arenas
import PhpDecl.Proofs.Validators
import PhpDecl.Proofs.Keeps
import PhpDecl.Proofs.Lines
import PhpDecl.Proofs.Placement
import PhpDecl.Session

/-!
# The lines of the body of a method

The body of a method is given as a text, and code may be added to it. A text that is given stays as
it is, while code that is added has its last line ended. So code stands on lines of its own behind
other code, and behind a text that ends its last line. Behind any other text the first line of the
code goes on with the last line of the text (`Store.lines_body`).
-/

namespace PhpDecl

open Text

namespace Text

/-- The lines of code: a line feed at the end of it starts no other line. -/
def codeLines (text : List Char) : List (List Char) :=
  if (lines text).getLast? = some [] then (lines text).dropLast else lines text

theorem codeLines_of_concat {text last : List Char} {front : List (List Char)}
    (split : lines text = front ++ [last]) :
    codeLines text = front ++ if last = [] then [] else [last] := by
  simp only [codeLines, split, List.getLast?_concat, List.dropLast_concat, Option.some_inj]
  split
  · rw [List.append_nil]
  · rfl

theorem codeLines_feed (text : List Char) : codeLines (text ++ ['\n']) = lines text :=
  (codeLines_of_concat (lines_append_feed text [])).trans (List.append_nil _)

/-- Behind a line that is ended, the lines of the rest follow. -/
theorem codeLines_append {text : List Char} (ends : EndsLine text) (rest : List Char) :
    codeLines (text ++ rest) = codeLines text ++ codeLines rest := by
  rcases ends with rfl | ⟨front, rfl⟩
  · rfl
  · obtain ⟨others, last, split⟩ := exists_lines_concat rest
    have lined : lines (front ++ '\n' :: rest) = (lines front ++ others) ++ [last] := by
      rw [lines_append_feed, split, List.append_assoc]
    rw [codeLines_feed, List.append_assoc, List.singleton_append, codeLines_of_concat lined,
      codeLines_of_concat split, List.append_assoc]

theorem codeLines_flatMap (codes : List (List Char)) :
    codeLines (codes.flatMap (· ++ ['\n'])) = codes.flatMap lines := by
  induction codes with
  | nil => rfl
  | cons code codes ih =>
      rw [List.flatMap_cons, codeLines_append (.inr ⟨code, rfl⟩), codeLines_feed, ih,
        List.flatMap_cons]

/-- A line that is not ended has a character. -/
theorem ne_nil_of_not_endsLine {text line : List Char} {front : List (List Char)}
    (split : lines text = front ++ [line]) (unended : ¬EndsLine text) : line ≠ [] := by
  rintro rfl
  refine unended ?_
  have same := eq_of_lines split
  rw [List.append_nil, List.flatMap_nil, List.append_nil] at same
  rcases List.eq_nil_or_concat front with rfl | ⟨others, last, rfl⟩
  · exact .inl same
  · refine .inr ⟨others.flatMap (· ++ ['\n']) ++ last, ?_⟩
    rw [same, List.concat_eq_append, List.flatMap_append, List.flatMap_singleton, List.append_assoc]

end Text

/-- A call that gives a method its body, or adds code to it. -/
inductive BodyCall
  | give (text : Option Word)
  | add (code : Word)

namespace BodyCall

/-- Ask a method for what the call says. A text that is not given is null. -/
def ask (h : Handle .method) : BodyCall → Op Value
  | .give text => Op.ask (.method h) .setBody [(text.map Value.word).getD .null]
  | .add code => Op.ask (.method h) .addBody [.word code]

/-- Ask a method one call after the other. -/
def askAll (h : Handle .method) : List BodyCall → Op Unit
  | [] => pure ()
  | call :: calls => do
      let _ ← call.ask h
      askAll h calls

end BodyCall

/-- What a body comes from: the text that was given last, and the codes that were added since. -/
structure BodyHistory where
  text : List Char
  added : List (List Char)

namespace BodyHistory

/-- The history of a body before any call. -/
def ofBody (body : Option String) : BodyHistory := ⟨charsOf body, []⟩

def next (history : BodyHistory) : BodyCall → BodyHistory
  | .give text => ⟨charsOf (text.map Word.toText), []⟩
  | .add code => ⟨history.text, history.added ++ [code.chars]⟩

/-- The body: behind each code that was added stands a line feed. -/
def body (history : BodyHistory) : List Char := history.text ++ history.added.flatMap (· ++ ['\n'])

theorem body_ofBody (text : Option String) : (ofBody text).body = charsOf text :=
  List.append_nil _

end BodyHistory

namespace BodyCall

/-- The body behind a call, from the one before. -/
def body (before : Option String) : BodyCall → Option String
  | .give text => text.map Word.toText
  | .add code => some (before.getD "" ++ code.toText ++ "\n")

theorem run_assign {h : Handle .method} {store : Store} {value : Value} {body : Option String}
    (read : value.readOptionalText = .ok body) :
    (Op.assign (.method h) .body value).run store =
      .ok ⟨⟩ (store.setMethod h { store.methods.get h with body }) := by
  have assigned : ((store.methods.get h).mapParameters .existing).assign store.nodes .body value =
      .ok (({ store.methods.get h with body } : Method _).mapParameters .existing) := by
    change (Field.body.checked value.readOptionalText >>= _) = _
    rw [read]
    rfl
  rw [Op.run_assign_method, assigned]
  change EStateM.Result.ok _ (Store.setMethod _ h _) = _
  rw [Store.settleMethod_existing]

/-- Every call is accepted. -/
theorem run_ask (call : BodyCall) (h : Handle .method) (store : Store) :
    (call.ask h).run store = .ok (.method h) (store.setMethod h
      { store.methods.get h with body := call.body (store.methods.get h).body }) := by
  cases call with
  | give text =>
      have asked : (give text).ask h =
          Op.assign (.method h) .body ((text.map Value.word).getD .null) >>= fun _ =>
            pure (.method h) := by
        cases text <;> rfl
      have read : ((text.map Value.word).getD .null).readOptionalText =
          .ok (text.map Word.toText) := by
        cases text <;> rfl
      rw [asked, Op.run_bind_ok (run_assign read)]
      rfl
  | add code =>
      have added : (Op.addBody h (.word code)).run store =
          (Op.assign (.method h) .body
            (.text ((store.methods.get h).body.getD "" ++ code.toText ++ "\n"))).run store := rfl
      have asked : (add code).ask h =
          Op.addBody h (.word code) >>= fun _ => pure (.method h) := rfl
      rw [asked, Op.run_bind_ok (added.trans (run_assign rfl))]
      rfl

theorem charsOf_body {body : Option String} {history : BodyHistory}
    (same : charsOf body = history.body) (call : BodyCall) :
    charsOf (call.body body) = (history.next call).body := by
  cases call with
  | give text => exact (List.append_nil _).symm
  | add code =>
      have read : (body.getD "").toList = charsOf body := by cases body <;> rfl
      change (body.getD "" ++ code.toText ++ "\n").toList = _
      rw [String.toList_append, String.toList_append, read, same, BodyHistory.next,
        BodyHistory.body, BodyHistory.body, List.flatMap_append, List.flatMap_singleton]
      simp only [List.append_assoc]
      rfl

theorem exists_run_askAll {h : Handle .method} {store : Store} (made : store.methods.Has h)
    {history : BodyHistory} (same : charsOf (store.methods.get h).body = history.body)
    (calls : List BodyCall) : ∃ after, (askAll h calls).run store = .ok ⟨⟩ after ∧
      charsOf (after.methods.get h).body = (calls.foldl BodyHistory.next history).body := by
  induction calls generalizing store history with
  | nil => exact ⟨store, rfl, same⟩
  | cons call calls ih =>
      let body := call.body (store.methods.get h).body
      let method := { store.methods.get h with body }
      have still : (store.setMethod h method).methods.Has h := by
        rw [Arena.Has, Store.setMethod, Arena.size_set]
        exact made
      have now : charsOf ((store.setMethod h method).methods.get h).body =
          (history.next call).body := by
        rw [Store.setMethod, Arena.get_set_self made]
        exact charsOf_body same call
      obtain ⟨after, ran, left⟩ := ih still now
      refine ⟨after, ?_, left⟩
      rw [askAll, Op.run_bind_ok (run_ask call h store)]
      exact ran

end BodyCall

namespace BodyHistory

variable {history : BodyHistory}

theorem codeLines_body (apart : history.added = [] ∨ EndsLine history.text) :
    codeLines history.body = codeLines history.text ++ history.added.flatMap lines := by
  rcases apart with none | ends
  · rw [body, none, List.flatMap_nil, List.flatMap_nil, List.append_nil, List.append_nil]
  · rw [body, codeLines_append ends, codeLines_flatMap]

/-- The first line of what is added goes on with a line that is not ended. -/
theorem codeLines_body_of_added {line first code : List Char} {front others codes}
    (split : lines history.text = front ++ [line]) (added : history.added = code :: codes)
    (next : lines code = first :: others) :
    codeLines history.body = front ++ (line ++ first) :: (others ++ codes.flatMap lines) := by
  have ended : history.body = (history.text ++ code ++ ['\n']) ++ codes.flatMap (· ++ ['\n']) := by
    rw [body, added, List.flatMap_cons]
    simp only [List.append_assoc]
  have ends : EndsLine (history.text ++ code ++ ['\n']) := .inr ⟨_, rfl⟩
  rw [ended, codeLines_append ends, codeLines_feed, codeLines_flatMap,
    lines_append split next, List.append_assoc, List.cons_append]

theorem codeLines_body_iff :
    codeLines history.body = codeLines history.text ++ history.added.flatMap lines ↔
      history.added = [] ∨ EndsLine history.text := by
  refine ⟨fun same => ?_, codeLines_body⟩
  by_contra merged
  obtain ⟨some, unended⟩ := not_or.1 merged
  obtain ⟨code, codes, added⟩ := List.exists_cons_of_ne_nil some
  obtain ⟨front, line, split⟩ := exists_lines_concat history.text
  obtain ⟨first, others, next⟩ := exists_lines code
  -- One line less: the two that meet are counted once.
  have count := congrArg List.length same
  rw [codeLines_body_of_added split added next, codeLines_of_concat split,
    if_neg (ne_nil_of_not_endsLine split unended), added, List.flatMap_cons, next] at count
  simp only [List.length_append, List.length_cons, List.length_nil] at count
  omega

end BodyHistory

namespace Store

/-- After any calls, all of which are accepted, the body is the text that was given last, or the one
that it was at first, and behind it the codes that were added since, each with a line feed. Its
lines are those of the text and of the codes exactly when nothing was added or the text ends its
last line. Otherwise the first line that was added goes on with the last line of the text, and all
other lines are as they were. -/
theorem lines_body {store : Store} {h : Handle .method} (made : store.methods.Has h)
    (calls : List BodyCall) : ∃ after, (BodyCall.askAll h calls).run store = .ok ⟨⟩ after ∧
      ∃ history, history = calls.foldl BodyHistory.next (.ofBody (store.methods.get h).body) ∧
        charsOf (after.methods.get h).body = history.body ∧
        (codeLines history.body = codeLines history.text ++ history.added.flatMap lines ↔
          history.added = [] ∨ EndsLine history.text) ∧
        ∀ {front line code codes first others}, lines history.text = front ++ [line] →
          history.added = code :: codes → lines code = first :: others →
          codeLines history.body = front ++ (line ++ first) :: (others ++ codes.flatMap lines) := by
  obtain ⟨after, ran, left⟩ :=
    BodyCall.exists_run_askAll made (BodyHistory.body_ofBody _).symm calls
  exact ⟨after, ran, _, rfl, left, BodyHistory.codeLines_body_iff,
    fun split added next => BodyHistory.codeLines_body_of_added split added next⟩

end Store

namespace Session

/-- A session with a method that has nothing in its body yet. -/
def bodied : Session :=
  start.after [⟨.newMember .method [("name", .atom (.word (.text "run")))], some "run", .prompt⟩]

theorem has_bodied : bodied.store.methods.Has ⟨0⟩ := by
  change 0 < bodied.store.methods.size
  decide +kernel

/-- A text that ends its line is given when there is code, and more code is added behind it. -/
theorem lines_body_ended :
    bodied.store.methods.Has ⟨0⟩ ∧
      ∃ after, (BodyCall.askAll ⟨0⟩ [.add (.text "lost"), .give (some (.text "// a\n")),
          .add (.text "b"), .add (.text "c\n\nd")]).run bodied.store = .ok ⟨⟩ after ∧
        codeLines (charsOf (after.methods.get ⟨0⟩).body) =
          ["// a".toList, "b".toList, "c".toList, [], "d".toList] := by
  obtain ⟨after, ran, history, last, left, apart, -⟩ := Store.lines_body has_bodied
    [.add (.text "lost"), .give (some (.text "// a\n")), .add (.text "b"), .add (.text "c\n\nd")]
  have said : history = ⟨"// a\n".toList, ["b".toList, "c\n\nd".toList]⟩ := last.trans rfl
  have ends : EndsLine history.text := .inr ⟨"// a".toList, by rw [said]; rfl⟩
  refine ⟨has_bodied, after, ran, ?_⟩
  rw [left, apart.2 (.inr ends), said]
  decide

/-- Code that is added behind a text without a line feed goes on with its last line, even if that is
a comment. -/
theorem body_line_continued :
    ∃ after, (BodyCall.askAll ⟨0⟩ [.give (some (.text "// a")), .add (.text "b")]).run
        bodied.store = .ok ⟨⟩ after ∧
      charsOf (after.methods.get ⟨0⟩).body = "// ab\n".toList ∧
      codeLines (charsOf (after.methods.get ⟨0⟩).body) ≠
        codeLines "// a".toList ++ lines "b".toList := by
  obtain ⟨after, ran, left⟩ := BodyCall.exists_run_askAll has_bodied
    (BodyHistory.body_ofBody _).symm [.give (some (.text "// a")), .add (.text "b")]
  have body : charsOf (after.methods.get ⟨0⟩).body = "// ab\n".toList := left.trans rfl
  refine ⟨after, ran, body, ?_⟩
  rw [body]
  decide

end Session

end PhpDecl
