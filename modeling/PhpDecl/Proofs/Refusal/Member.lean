import PhpDecl.Proofs.Validators
import PhpDecl.Proofs.Refusal

/-!
# Refused changes of members

A member is changed by requests and by assignments to its fields. Nearly all of them make one
assignment, which is refused before anything is changed; what is assigned behind another one is
a flag that is never refused. The one exception is a return type that is set together with its
nullability: it stays when the nullability is refused.
-/

namespace PhpDecl

/-- A call that may change a member: a request, or the assignment of a value by a name. -/
inductive Mutation
  | ask (request : Request) (args : List Value)
  | assign (label : String) (value : Value)

namespace Mutation

def run (target : Value) : Mutation → Op Value
  | .ask request args => Op.ask target request args
  | .assign label value => do
      Op.assignNamed target label value
      return .null

/-- The return type that a method is left with when the mutation stops between its two
assignments. -/
def halfway? (target : Value) : Mutation → Option (Handle .method × Option String)
  | .ask .setReturnType [type, nullable] =>
      match target, type.readOptionalText, nullable.readFlag with
      | .method h, .ok returnType, .error _ => some (h, returnType)
      | _, _, _ => none
  | _ => none

end Mutation

namespace Op

/-! ## The return type of a method -/

section

variable {store : Store} {h : Handle .method} {type nullable : Value}

theorem run_assign_returnType {returnType : Option String}
    (accepted : type.readOptionalText = .ok returnType) :
    (assign (.method h) .returnType type).run store =
      .ok ⟨⟩ (store.setMethod h { store.methods.get h with returnType }) := by
  have assigned : ((store.methods.get h).mapParameters .existing).assign store.nodes .returnType
      type = .ok (Method.mapParameters .existing { store.methods.get h with returnType }) := by
    simp only [Method.assign, accepted]
    rfl
  rw [run_assign_method, assigned]
  simp only [Store.settleMethod_existing]

theorem run_assign_returnType_of_error {problem : Problem}
    (refused : type.readOptionalText = .error problem) :
    (assign (.method h) .returnType type).run store =
      .error (.fields [.on .returnType problem]) store := by
  have unassigned : ((store.methods.get h).mapParameters .existing).assign store.nodes .returnType
      type = .error [.on .returnType problem] := by
    simp only [Method.assign, refused]
    rfl
  rw [run_assign_method, unassigned]

theorem run_assign_returnNullable_of_error {problem : Problem}
    (refused : nullable.readFlag = .error problem) :
    (assign (.method h) .returnNullable nullable).run store =
      .error (.fields [.on .returnNullable problem]) store := by
  have unassigned : ((store.methods.get h).mapParameters .existing).assign store.nodes
      .returnNullable nullable = .error [.on .returnNullable problem] := by
    simp only [Method.assign, refused]
    rfl
  rw [run_assign_method, unassigned]

theorem total_assign_returnNullable {flag : Bool} (accepted : nullable.readFlag = .ok flag) :
    Total (assign (.method h) .returnNullable nullable) := by
  intro store
  have assigned : ((store.methods.get h).mapParameters .existing).assign store.nodes
      .returnNullable nullable =
        .ok { (store.methods.get h).mapParameters .existing with returnNullable := flag } := by
    simp only [Method.assign, accepted]
    rfl
  rw [run_assign_method, assigned]
  exact ⟨_, _, rfl⟩

/-- A return type that is accepted stays when the nullability behind it is refused. -/
theorem run_setReturnType {returnType : Option String} {problem : Problem}
    (accepted : type.readOptionalText = .ok returnType)
    (refused : nullable.readFlag = .error problem) :
    (setReturnType (.method h) type nullable).run store =
      .error (.fields [.on .returnNullable problem])
        (store.setMethod h { store.methods.get h with returnType }) := by
  rw [setReturnType, run_bind_ok (run_assign_returnType accepted)]
  exact run_assign_returnNullable_of_error refused

end

namespace Atomic

theorem ofFields {α β : Type} {result : Except (List FieldError) α} {next : α → Op β}
    (others : ∀ a, Atomic (next a)) : Atomic (ofFields result >>= next) :=
  bind (fun _ => Keeps.ofFields result) others

theorem assign (target : Value) (field : Field) (value : Value) :
    Atomic (assign target field value) := by
  refine get fun store => ?_
  cases target with
  | constant h => exact ofFields fun _ => of_total (.set _)
  | property h => exact ofFields fun _ => of_total (.set _)
  | parameter h => exact ofFields fun _ => of_total (.set _)
  | method h => exact ofFields fun _ => of_total (.set _)
  | _ => exact throw _

theorem annotate (target : Value) (label : String) (value : Value) :
    Atomic (annotate target label value) := by
  have noted (change : Store → Store) : Total (modify change : Op Unit) :=
    fun store => ⟨⟨⟩, change store, rfl⟩
  cases target with
  | constant h => exact of_total (noted _)
  | property h => exact of_total (noted _)
  | parameter h => exact of_total (noted _)
  | method h => exact of_total (noted _)
  | _ => exact throw _

theorem assignNamed (target : Value) (label : String) (value : Value) :
    Atomic (assignNamed target label value) := by
  unfold Op.assignNamed
  split
  · exact annotate target label value
  · split
    · exact assign target _ value
    · exact throw _

theorem addComment (target line : Value) : Atomic (addComment target line) :=
  bind (fun _ => Keeps.commentOf target) fun _ => bind (fun _ => Keeps.addedText line) fun _ =>
    assign target .comment _

theorem addBody (h : Handle .method) (code : Value) : Atomic (addBody h code) :=
  get fun _ => bind (fun _ => Keeps.addedText code) fun _ => assign (.method h) .body _

/-- Behind the default of a parameter only the mark is set that there is one. -/
theorem setDefault (h : Handle .parameter) (value : Value) :
    Atomic (setDefault (.parameter h) value) :=
  (assign _ .defaultValue value).andThen fun _ => fun _ => ⟨⟨⟩, _, rfl⟩

theorem addParameter (h : Handle .method) (name : Value) (default : Option Value) :
    Atomic (addParameter h name default) :=
  get fun _ => ofFields fun _ => of_total (.bind (.set _) fun _ => .pure _)

/-- A return type is refused itself, or its nullability is not. -/
theorem setReturnType (h : Handle .method) {type nullable : Value}
    (whole : ∀ returnType, type.readOptionalText = .ok returnType →
      ∃ flag, nullable.readFlag = .ok flag) : Atomic (setReturnType (.method h) type nullable) := by
  refine (assign _ .returnType type).andThen_of_run fun store _ between run => ?_
  cases read : type.readOptionalText with
  | ok returnType =>
      obtain ⟨flag, accepted⟩ := whole returnType read
      exact total_assign_returnNullable accepted
  | error problem => cases run.symm.trans (run_assign_returnType_of_error read)

/-! ## Requests -/

theorem askMethod (h : Handle .method) (request : Request) {args : List Value}
    (whole : ∀ type nullable returnType, request = .setReturnType → args = [type, nullable] →
      type.readOptionalText = .ok returnType → ∃ flag, nullable.readFlag = .ok flag) :
    Atomic (askMethod h request args) := by
  refine get fun store => ?_
  have self (_ : Unit) : Total (Pure.pure (Value.method h) : Op Value) := .pure _
  simp only
  split
  · exact (addBody h _).andThen self
  · exact addParameter h _ none
  · exact addParameter h _ (some _)
  · exact of_gathers fun _ => Keeps.newNode _
  · exact (setReturnType h fun _ _ => ⟨false, rfl⟩).andThen self
  · exact (setReturnType h fun returnType read => whole _ _ returnType rfl rfl read).andThen self
  · exact of_total (.pure _)
  · exact throw _

theorem askMember {target : Value} {type : MemberType} (member : target.memberType? = some type)
    (request : Request) {args : List Value}
    (whole : ∀ h type nullable returnType, target = .method h → request = .setReturnType →
      args = [type, nullable] → type.readOptionalText = .ok returnType →
        ∃ flag, nullable.readFlag = .ok flag) :
    Atomic (askMember type target request args) := by
  have self (_ : Unit) : Total (Pure.pure target : Op Value) := .pure _
  unfold Op.askMember
  split
  next field assigned =>
    split
    · exact (assign target field _).andThen self
    · split
      · exact (assign target field _).andThen self
      · exact throw _
    · exact throw _
  next =>
    split
    · exact of_gathers fun _ => Keeps.checkName _
    · cases target with
      | parameter h => exact (setDefault h _).andThen self
      | _ => cases member
    · exact of_gathers fun _ => Keeps.checkValue _
    · exact throw _
    · exact of_gathers fun _ => Keeps.checkValue _
    · exact of_gathers fun _ => Keeps.checkValue _
    · exact of_gathers fun _ => Keeps.bind (Keeps.fieldOf target .name) fun _ => Keeps.pure _
    · exact (addComment target _).andThen self
    · exact of_gathers fun _ => Keeps.render _ _ _
    · exact of_gathers fun _ => Keeps.render _ _ _
    · refine get fun store => ?_
      split
      · exact throw _
      · exact of_gathers fun _ => Keeps.render _ _ _
    · cases target with
      | method h =>
          exact askMethod h request fun type nullable returnType =>
            whole h type nullable returnType rfl
      | _ => exact throw _

theorem askOfMember {target : Value} {type : MemberType} (member : target.memberType? = some type)
    (request : Request) {args : List Value}
    (whole : ∀ h type nullable returnType, target = .method h → request = .setReturnType →
      args = [type, nullable] → type.readOptionalText = .ok returnType →
        ∃ flag, nullable.readFlag = .ok flag) :
    Atomic (Op.ask target request args) := by
  unfold Op.ask
  split
  · exact of_gathers fun _ => Keeps.text _
  · exact of_gathers fun _ => Keeps.inspect _
  · cases target with
    | constant | property | parameter | method =>
        cases member
        exact askMember rfl request whole
    | _ => cases member

end Atomic

end Op

namespace Mutation

/-- A refused change of a member leaves all objects as they were, the member with all its fields
and its parameters with all of theirs, unless it stopped between two assignments: then the return
type of the method is the new one, and nothing else differs. -/
theorem after_of_refused {store after : Store} {target : Value} {type : MemberType}
    (member : target.memberType? = some type) {mutation : Mutation} {fault : Fault}
    (refused : (mutation.run target).run store = .error fault after) :
    match mutation.halfway? target with
    | none => store.GrowsTo after
    | some (h, returnType) =>
        after = store.setMethod h { store.methods.get h with returnType } := by
  cases mutation with
  | assign label value =>
      have atomic : Op.Atomic ((Mutation.assign label value).run target) :=
        (Op.Atomic.assignNamed target label value).andThen fun _ => .pure _
      exact atomic store fault after refused
  | ask request args =>
      cases stops : (Mutation.ask request args).halfway? target with
      | none =>
          refine Op.Atomic.askOfMember member request ?_ store fault after refused
          rintro h type nullable returnType rfl rfl rfl read
          cases decided : nullable.readFlag with
          | ok flag => exact ⟨flag, rfl⟩
          | error problem => simp [halfway?, read, decided] at stops
      | some stop =>
          unfold halfway? at stops
          split at stops
          next type nullable same =>
            cases same
            split at stops
            next h returnType problem read undecided =>
              cases stops
              change (Op.setReturnType (.method h) type nullable >>= fun _ =>
                pure (Value.method h) : Op Value).run store = _ at refused
              cases (Op.run_bind_error (Op.run_setReturnType read undecided)).symm.trans refused
              rfl
            next => cases stops
          next => cases stops

end Mutation

namespace Session

/-- A session with a method that returns an integer. -/
def typed : Session :=
  start.after [⟨.newMember .method [("name", .atom (.word (.text "run"))),
    ("return_type", .atom (.word (.text "int")))], some "run", .prompt⟩]

/-- A flag that is refused leaves the method alone, but behind the name of a type it does not. -/
theorem after_of_refused_typed :
    (∃ after, ((Mutation.assign "static" (.text "maybe")).run (.method ⟨0⟩)).run typed.store =
        .error (.fields [.on .static .unclearFlag]) after ∧ typed.store.GrowsTo after) ∧
      ∃ after, ((Mutation.ask .setReturnType [.text "string", .null]).run (.method ⟨0⟩)).run
          typed.store = .error (.fields [.on .returnNullable .notFlag]) after ∧
        (after.methods.get ⟨0⟩).returnType = some "string" := by
  have flag : ((Mutation.assign "static" (.text "maybe")).run (.method ⟨0⟩)).run typed.store =
      .error (.fields [.on .static .unclearFlag]) typed.store := by
    with_unfolding_all rfl
  obtain ⟨after, type⟩ : ∃ after, ((Mutation.ask .setReturnType [.text "string", .null]).run
      (.method ⟨0⟩)).run typed.store = .error (.fields [.on .returnNullable .notFlag]) after :=
    ⟨_, by with_unfolding_all rfl⟩
  refine ⟨⟨_, flag, Mutation.after_of_refused rfl flag⟩, after, type, ?_⟩
  rw [Mutation.after_of_refused rfl type]
  rfl

/-- The new return type of a call that is refused. -/
theorem typed_changes_return_type :
    let refused := typed.run ⟨.ask "run" (some .setReturnType)
      [.atom (.word (.text "string")), .atom .null], none, .prompt⟩
    refused.2.result = .error (.fields [.on .returnNullable .notFlag]) ∧
      (typed.store.methods.get ⟨0⟩).returnType = some "int" ∧
      (refused.1.store.methods.get ⟨0⟩).returnType = some "string" := by
  refine ⟨?_, ?_, ?_⟩ <;> with_unfolding_all rfl

end Session

end PhpDecl
