import PhpDecl.Proofs.Comments
import PhpDecl.Proofs.Embed

/-!
# Rendering never fails

In every session that can be reached, every declaration and every member is written, with every
shortener and under every layout, and so is every value that a member keeps. Names, visibilities
and values are valid by their types; what remains to be known of a store is that the comments of
its declarations can be read.
-/

namespace PhpDecl

/-- A declaration, or a member that is written by itself. -/
def Value.IsWritten : Value → Prop
  | .classType _ | .constant _ | .property _ | .method _ => True
  | _ => False

def Value.KeepsValue : Value → Field → Prop
  | .constant _, .value | .property _, .value | .parameter _, .defaultValue => True
  | _, _ => False

/-- A value that can write names short, or null, which leaves them as they are. -/
def Store.Shortens (store : Store) (value : Value) : Prop :=
  value = .null ∨ (store.shortener? value).isSome = true

/-- The operation answers with a text and changes nothing. -/
def Op.Answers (op : Op Value) (store : Store) : Prop :=
  ∃ text, op.run store = .ok (.text text) store

/-- Everything in the store is written, whatever shortens names and whatever the layout. -/
structure Store.Renders (store : Store) : Prop where
  written : ∀ {target}, target.IsWritten → ∀ shortener layout,
    (Op.renderWith target shortener layout).Answers store
  parameters : ∀ h shortener layout,
    (Op.renderParametersWith (.method h) shortener layout).Answers store
  shortened : ∀ {target}, target.IsWritten → ∀ {shortener}, store.Shortens shortener →
    ∀ layout, (Op.render target shortener layout).Answers store
  shortenedParameters : ∀ h {shortener}, store.Shortens shortener →
    ∀ layout, (Op.renderParameters (.method h) shortener layout).Answers store
  /-- A value that a member keeps is still written when it is read. -/
  values : ∀ {target field}, target.KeepsValue field → ∀ layout, ∃ value after text,
    (Op.fieldOf target field).run store = .ok (some value) after ∧
      after.nodes.dump layout value = .ok text

namespace Op

theorem run_shortenerOf_of_some {store : Store} {value : Value} {shortener : Shortener}
    (found : store.shortener? value = some shortener) (names : Bool) :
    (shortenerOf names value).run store = .ok (some shortener) store := by
  cases value with
  | scope h | shortener h =>
      cases found
      rfl
  | _ => cases found

/-- A shortener is found for a value that can write names short, and none for null. -/
theorem exists_shortenerOf {store : Store} {value : Value} (shortens : store.Shortens value)
    (names : Bool) : ∃ shortener, (shortenerOf names value).run store = .ok shortener store := by
  rcases shortens with rfl | some
  · exact ⟨none, rfl⟩
  · obtain ⟨shortener, found⟩ := Option.isSome_iff_exists.1 some
    exact ⟨_, run_shortenerOf_of_some found names⟩

/-- A comment that can be read is read. -/
theorem exists_classComment {store : Store} (commented : Commented store)
    (h : Handle .classType) : ∃ text, store.classComment h = .ok text := by
  rcases commented h with null | ⟨word, same⟩
  · exact ⟨"", by rw [Store.classComment, null]; rfl⟩
  · exact ⟨word.toText, by rw [Store.classComment, same]; rfl⟩

/-- Every fault can be worded while every comment can be read. -/
theorem refusal_eq_of_commented {store : Store} (commented : Commented store) (fault : Fault) :
    store.refusal fault = fault := by
  rw [Store.refusal]
  cases fault.quoted? with
  | none => rfl
  | some value =>
      cases value with
      | classType h =>
          obtain ⟨text, read⟩ := exists_classComment commented h
          rw [Option.map_some, Store.checkText, read]
          rfl
      | _ => rfl

variable {store : Store} {target : Value} {h : Handle .classType}

/-- A declaration is written whose comment can be read. -/
theorem run_renderWith_of_ok {comment : String} (read : store.classComment h = .ok comment)
    (shortener : Option Shortener) (layout : Layout) :
    (renderWith (.classType h) shortener layout).run store =
      .ok (.text (String.ofList (store.renderClass h shortener layout))) store := by
  change EStateM.bind (ofExcept (store.classComment h)) _ store = _
  rw [read]
  rfl

theorem run_renderWith_of_error {fault : Fault} (read : store.classComment h = .error fault)
    (shortener : Option Shortener) (layout : Layout) :
    (renderWith (.classType h) shortener layout).run store =
      .error (store.refusal fault) store := by
  change EStateM.bind (ofExcept (store.classComment h)) _ store = _
  rw [read]
  rfl

theorem answers_renderWith (commented : Commented store) (written : target.IsWritten)
    (shortener : Option Shortener) (layout : Layout) :
    (renderWith target shortener layout).Answers store := by
  cases target with
  | classType h =>
      obtain ⟨text, read⟩ := exists_classComment commented h
      exact ⟨_, run_renderWith_of_ok read shortener layout⟩
  | constant h => exact ⟨_, rfl⟩
  | property h => exact ⟨_, rfl⟩
  | method h => exact ⟨_, rfl⟩
  | _ => cases written

/-- What answers with every shortener answers with the one that a value stands for. -/
theorem answers_shortened {shortener : Value} (shortens : store.Shortens shortener)
    (names : Bool) {next : Option Shortener → Op Value}
    (answers : ∀ shortener, (next shortener).Answers store) :
    (shortenerOf names shortener >>= next).Answers store := by
  obtain ⟨found, run⟩ := exists_shortenerOf shortens names
  obtain ⟨text, answer⟩ := answers found
  exact ⟨text, (run_bind_ok run).trans answer⟩

/-- A value that a member keeps is written when it is read. -/
theorem exists_dump_fieldOf {field : Field} (keeps : target.KeepsValue field) (layout : Layout) :
    ∃ value after text, (fieldOf target field).run store = .ok (some value) after ∧
      after.nodes.dump layout value = .ok text := by
  cases target with
  | constant h =>
      cases field with
      | value => exact ⟨_, _, _, rfl, store.nodes.dump_embed (store.constants.get h).value layout⟩
      | _ => cases keeps
  | property h =>
      cases field with
      | value => exact ⟨_, _, _, rfl, store.nodes.dump_embed (store.properties.get h).value layout⟩
      | _ => cases keeps
  | parameter h =>
      cases field with
      | defaultValue =>
          exact ⟨_, _, _, rfl, store.nodes.dump_embed (store.parameters.get h).defaultValue layout⟩
      | _ => cases keeps
  | _ => cases keeps

end Op

/-- Where all comments can be read, everything is written. -/
theorem Store.renders_of_commented {store : Store} (commented : Op.Commented store) :
    store.Renders where
  written := Op.answers_renderWith commented
  parameters _ _ _ := ⟨_, rfl⟩
  shortened written _ shortens layout :=
    Op.answers_shortened shortens _ fun shortener =>
      Op.answers_renderWith commented written shortener layout
  shortenedParameters _ _ shortens _ := Op.answers_shortened shortens _ fun _ => ⟨_, rfl⟩
  values := Op.exists_dump_fieldOf

namespace Session

/-- Whatever is asked of the objects of a session, successfully or not, everything in it can be
written afterwards. -/
theorem Reachable.renders {session : Session} (reachable : session.Reachable) :
    session.store.Renders :=
  Store.renders_of_commented reachable.commented

/-- A session with a class that has a comment, and a constant that holds an array. -/
def documented : Session :=
  ((start.run ⟨.newClass (.atom (.word (.text "Server"))) none, some "server", .prompt⟩).1.run
    ⟨.ask "server" (some .addConstant)
      [.atom (.word (.text "PORTS")), .list [.atom (.word (.text "http"))]], none, .prompt⟩).1.run
    ⟨.ask "server" (some .setComment) [.atom (.word (.text "Listens."))], none, .prompt⟩ |>.1

theorem renders_documented : documented.store.Renders := by
  refine Reachable.renders (.run (.run (.run .start ?_) ?_) ?_)
  · intro _ _ _ _ _ action
    cases action
  · intro _ _ _ _ _ action
    cases action
  · intro _ _ _ value after action _ evaluated
    cases action
    cases evaluated
    exact .inr ⟨_, rfl⟩

end Session

end PhpDecl
