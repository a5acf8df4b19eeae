import Mathlib.Data.List.Basic
import PhpDecl.Fault.Message
import PhpDecl.Proofs.Arenas
import PhpDecl.Proofs.Keeps
import PhpDecl.Proofs.Validators

/-!
# Making a member and assigning to it agree

A member may be made with all the values for its fields, or with its name alone and be given the
others one by one. Both ways accept the same values, leave the same objects behind whatever the
order of the assignments, and say the same about what they refuse.
-/

namespace PhpDecl

theorem MemberType.nodup_fields (type : MemberType) : type.fields.Nodup := by
  cases type <;> decide

theorem MemberType.name_mem_fields (type : MemberType) : Field.name ∈ type.fields := by
  cases type <;> decide

namespace Given

def nameAlone (given : Given) : Given := fun field => if field = .name then given .name else none

/-- The given values, each with its field. -/
def listed (given : Given) (fields : List Field) : List (Field × Value) :=
  fields.filterMap fun field => (given field).map (field, ·)

variable {given : Given}

theorem mem_listed {fields : List Field} {field : Field} {value : Value} :
    (field, value) ∈ given.listed fields ↔ field ∈ fields ∧ given field = some value := by
  simp [listed]

theorem map_fst_listed (fields : List Field) :
    (given.listed fields).map Prod.fst = fields.filter fun field => (given field).isSome := by
  induction fields with
  | nil => rfl
  | cons field rest ih =>
      rw [listed] at ih ⊢
      cases offer : given field <;> simp [offer, ih]

end Given

namespace Op

/-- Give values to fields of a member, one after the other. -/
def assignEach (validators : Validators) (target : Value) (assignments : List (Field × Value)) :
    Op Unit :=
  assignments.forM fun (field, value) => assignBy validators target field value

/-- Make a member with its name alone, and give it values. -/
def nameThenAssign (validators : Validators) (type : MemberType) (given : Given)
    (assignments : List (Field × Value)) : Op Value := do
  let made ← newMemberBy validators type given.nameAlone
  assignEach validators made assignments
  return made

/-- How members of a type are made and assigned to: a member is made and added, or replaced. -/
structure Making (store : Store) (type : MemberType) {α : Type} (validator : Validator α)
    (content : α → Field → Option Content) (add : α → Store × Value) : Prop
    extends validator.Lawful type.fields content where
  fieldwise : Fieldwise type.fields content
  made : ∀ given, (newMemberBy .standard type given).run store =
    match validator.make store.nodes given with
    | .ok a => .ok (add a).2 (add a).1
    | .error errors => .error (.fields errors) store
  assigned : ∀ target, target.memberType? = some type → ∃ a, ∃ put : α → Store,
    ∀ field value, (assignBy .standard target field value).run store =
      match validator.assign store.nodes a field value with
      | .ok b => .ok ⟨⟩ (put b)
      | .error errors => .error (.fields errors) store
  /-- What is assigned to a new member could have been there from the start; but parameters are
  objects, and those of an earlier assignment would stay. -/
  replaced : ∀ {a b field value},
    (field = .parameters → content a .parameters = Field.parameters.default?) →
    validator.assign store.nodes a field value = .ok b →
      (add b).2 = (add a).2 ∧
        (assignBy .standard (add a).2 field value).run (add a).1 = .ok ⟨⟩ (add b).1

/-- Members that have an arena of their own are made and added, or replaced. -/
theorem making_of_arena {role : Role} {α : Type} [Inhabited α] {store : Store} {type : MemberType}
    {validator : Validator α} {content : α → Field → Option Content}
    (lawful : validator.Lawful type.fields content) (fieldwise : Fieldwise type.fields content)
    {arena : Arena role α} (put : Arena role α → Store) (wrap : Handle role → Value)
    (same : put arena = store)
    (wrapped : ∀ target, target.memberType? = some type → ∃ h, target = wrap h)
    (made : ∀ given, (newMemberBy .standard type given).run store =
      (ofFields (validator.make store.nodes given) >>= fun a => do
        set (put (arena.push a))
        return wrap arena.next).run store)
    (assigned : ∀ arena h field value, (assignBy .standard (wrap h) field value).run (put arena) =
      (ofFields (validator.assign store.nodes (arena.get h) field value) >>= fun b =>
        set (put (arena.set h b))).run (put arena)) :
    Making store type validator content fun a => (put (arena.push a), wrap arena.next) where
  toLawful := lawful
  fieldwise := fieldwise
  made given := by
    rw [made, run_ofFields_bind]
    cases validator.make store.nodes given <;> rfl
  assigned target kind := by
    obtain ⟨h, rfl⟩ := wrapped target kind
    refine ⟨arena.get h, fun b => put (arena.set h b), fun field value => ?_⟩
    rw [← same, assigned, run_ofFields_bind, same]
    cases validator.assign store.nodes (arena.get h) field value <;> rfl
  replaced {a b field value} _ taken := by
    refine ⟨rfl, ?_⟩
    rw [assigned, Arena.get_push_next, taken]
    change EStateM.Result.ok _ (put ((arena.push a).set arena.next b)) = _
    rw [Arena.set_push_next]

theorem making_constant (store : Store) : Making store .constant Validators.standard.constant
    Constant.content fun a => ((store.addConstant a).1, .constant (store.addConstant a).2) := by
  refine making_of_arena ?_ ?_
    (fun constants => { store with constants }) .constant rfl (fun target kind => ?_)
    (fun _ => rfl) fun _ _ _ _ => rfl
  · exact Constant.lawful
  · exact Constant.fieldwise
  · cases target with
    | constant h => exact ⟨h, rfl⟩
    | _ => cases kind

theorem making_property (store : Store) : Making store .property Validators.standard.property
    Property.content fun a => ((store.addProperty a).1, .property (store.addProperty a).2) := by
  refine making_of_arena ?_ ?_
    (fun properties => { store with properties }) .property rfl (fun target kind => ?_)
    (fun _ => rfl) fun _ _ _ _ => rfl
  · exact Property.lawful
  · exact Property.fieldwise
  · cases target with
    | property h => exact ⟨h, rfl⟩
    | _ => cases kind

theorem making_parameter (store : Store) : Making store .parameter Validators.standard.parameter
    Parameter.content fun a => ((store.addParameter a).1, .parameter (store.addParameter a).2) := by
  refine making_of_arena ?_ ?_
    (fun parameters => { store with parameters }) .parameter rfl (fun target kind => ?_)
    (fun _ => rfl) fun _ _ _ _ => rfl
  · exact Parameter.lawful
  · exact Parameter.fieldwise
  · cases target with
    | parameter h => exact ⟨h, rfl⟩
    | _ => cases kind

end Op

namespace Method

variable {store : Store} {a b : Method (Draft .parameter Parameter)}

/-- The method with its parameters added, made ready for an assignment. -/
def drafted (store : Store) (method : Method (Draft .parameter Parameter)) :
    Method (Draft .parameter Parameter) :=
  (store.settleMethod method).2.mapParameters .existing

theorem content_drafted (method : Method (Draft .parameter Parameter)) {field : Field}
    (other : field ≠ .parameters) :
    (method.drafted store).content field = method.content field := by
  cases field <;> first | rfl | exact absurd rfl other

theorem settleMethod_congr (same : a.parameters = b.parameters) :
    (store.settleMethod a).1 = (store.settleMethod b).1 ∧
      (a.drafted store).parameters = (b.drafted store).parameters := by
  simp only [drafted, Store.settleMethod, mapParameters, same, and_self]

theorem parameters_eq_empty (same : a.content .parameters = Field.parameters.default?) :
    a.parameters = .empty := by
  simpa [content, Field.default?] using same

theorem parameters_eq_of_content (same : a.content .parameters = b.content .parameters) :
    a.parameters = b.parameters := by
  simpa [content] using same

/-- An assignment to a method whose parameters were added leaves the method that is made by the
assignment first and has its parameters added then. -/
theorem settleMethod_assign {field : Field} {value : Value} (methods)
    (fresh : field = .parameters → a.parameters = .empty)
    (taken : assign store.nodes a field value = .ok b) :
    ∃ d, assign store.nodes (a.drafted store) field value = .ok d ∧
      ({ (store.settleMethod a).1 with methods } : Store).settleMethod d =
        ({ (store.settleMethod b).1 with methods }, (store.settleMethod b).2) := by
  obtain ⟨own, x, read⟩ := lawful.read_of_assign taken
  obtain ⟨b', same, holds⟩ := lawful.assigns (a := a) own read
  cases same.symm.trans taken
  obtain ⟨d, assigned, held⟩ := lawful.assigns (a := a.drafted store) own read
  refine ⟨d, assigned, ?_⟩
  by_cases new : field = .parameters
  · subst new
    have none : a.parameters = .empty := fresh rfl
    have made : d = b := by
      refine fieldwise fun field _ => ?_
      rw [held, holds]
      by_cases there : field = .parameters
      · simp [there]
      · simp [there, content_drafted a there]
    subst made
    have kept : (store.settleMethod a).1 = store := by
      simp only [Store.settleMethod, none]
      rfl
    rw [kept]
    rfl
  · have unchanged : a.parameters = b.parameters := by
      refine parameters_eq_of_content ?_
      rw [holds, Function.update_of_ne (Ne.symm new)]
    have ready : d = b.drafted store := by
      refine fieldwise fun other _ => ?_
      rw [held]
      by_cases there : other = .parameters
      · subst there
        rw [Function.update_of_ne (Ne.symm new)]
        exact congrArg (some ∘ Content.parameters) (settleMethod_congr unchanged).2
      · by_cases here : other = field
        · subst here
          rw [content_drafted b there, holds, Function.update_self, Function.update_self]
        · rw [content_drafted b there, holds, Function.update_of_ne here,
            Function.update_of_ne here, content_drafted a there]
    rw [ready, (settleMethod_congr unchanged).1, drafted, Store.settleMethod_existing]

end Method

namespace Op

/-- An assignment to the newest method. -/
theorem run_assign_added {store later : Store} {method changed : Method (Handle .parameter)}
    {field : Field} {value : Value} {d : Method (Draft .parameter Parameter)}
    (assigned : (method.mapParameters .existing).assign store.nodes field value = .ok d)
    (settled : ({ store with methods := store.methods.push method } : Store).settleMethod d =
      ({ later with methods := store.methods.push method }, changed)) :
    (assign (.method store.methods.next) field value).run (store.addMethod method).1 =
      .ok ⟨⟩ { later with methods := store.methods.push changed } := by
  rw [run_assign_method]
  simp only [Store.addMethod, Arena.get_push_next, assigned, settled, Store.setMethod,
    Arena.set_push_next]

theorem making_method (store : Store) : Making store .method Validators.standard.method
    Method.content fun a =>
      let (settled, method) := store.settleMethod a
      ((settled.addMethod method).1, .method (settled.addMethod method).2) where
  toLawful := Method.lawful
  fieldwise := Method.fieldwise
  made given := by
    simp only [newMemberBy, run_get_bind, run_ofFields_bind]
    cases Validators.standard.method.make store.nodes given <;> rfl
  assigned target kind := by
    cases target with
    | method h =>
        refine ⟨(store.methods.get h).mapParameters .existing,
          fun a => (store.settleMethod a).1.setMethod h (store.settleMethod a).2,
          fun field value => (run_assign_method store h field value).trans ?_⟩
        rw [Validators.standard_method_assign]
        cases ((store.methods.get h).mapParameters .existing).assign store.nodes field value <;> rfl
    | _ => cases kind
  replaced {a b field value} fresh taken := by
    refine ⟨rfl, ?_⟩
    obtain ⟨d, assigned, settled⟩ := Method.settleMethod_assign
      ((store.settleMethod a).1.methods.push (store.settleMethod a).2)
      (fun here => Method.parameters_eq_empty (fresh here)) taken
    exact run_assign_added assigned settled

/-- A member of each type is made and assigned to in the same way. -/
theorem exists_making (store : Store) (type : MemberType) :
    ∃ (α : Type) (validator : Validator α) (content : α → Field → Option Content)
      (add : α → Store × Value), Making store type validator content add := by
  cases type with
  | constant => exact ⟨_, _, _, _, making_constant store⟩
  | property => exact ⟨_, _, _, _, making_property store⟩
  | parameter => exact ⟨_, _, _, _, making_parameter store⟩
  | method => exact ⟨_, _, _, _, making_method store⟩

end Op

/-- What is reported of a field when a member is made, as a member that is there reports it: a
missing name, or what the assignment of the given value to the field is refused for. -/
def Store.reported (store : Store) (validators : Validators) (target : Value) (given : Given)
    (field : Field) : List FieldError :=
  match given field with
  | none => if field = .name then [.on field .missing] else []
  | some value =>
      match (Op.assignBy validators target field value).run store with
      | .error (.fields errors) _ => errors
      | _ => []

theorem Field.refusals_absent (field : Field) :
    refusals field.absent = if field = .name then [.on field .missing] else [] := by
  cases field <;> rfl

namespace Op

namespace Making

variable {store : Store} {type : MemberType} {α : Type} {validator : Validator α}
  {content : α → Field → Option Content} {add : α → Store × Value} {given : Given}

/-- A member that is there reports of a field what is wrong with it when a member is made. -/
theorem reported_eq (law : Making store type validator content add) {target : Value}
    (member : target.memberType? = some type) (given : Given) {field : Field}
    (own : field ∈ type.fields) : store.reported .standard target given field =
      refusals (field.initial store.nodes given) := by
  obtain ⟨a, put, assigned⟩ := law.assigned target member
  rw [Store.reported, Field.initial]
  cases given field with
  | none => exact field.refusals_absent.symm
  | some value =>
      dsimp only
      rw [assigned]
      cases read : field.read store.nodes value with
      | ok x =>
          obtain ⟨b, taken, -⟩ := law.assigns (a := a) own read
          rw [taken]
          rfl
      | error errors =>
          rw [law.refuses own read]
          rfl

theorem reported_eq_nil_iff (law : Making store type validator content add) {target : Value}
    (member : target.memberType? = some type) (given : Given) (field : Field) :
    store.reported .standard target given field = [] ↔
      (field = .name → (given field).isSome) ∧ ∀ value, given field = some value →
        ∃ after, (assignBy .standard target field value).run store = .ok ⟨⟩ after := by
  obtain ⟨a, put, assigned⟩ := law.assigned target member
  rw [Store.reported]
  cases given field with
  | none => simp
  | some value =>
      simp only [assigned, Option.isSome_some, implies_true, true_and, Option.some.injEq,
        forall_eq']
      cases taken : validator.assign store.nodes a field value with
      | ok b => simp
      | error errors =>
          have wrong : errors ≠ [] := law.wrong_of_assign taken
          simp [wrong]

/-- A member is made when there is nothing to report, -/
theorem run_newMember (law : Making store type validator content add)
    (fine : ∀ field ∈ type.fields, refusals (field.initial store.nodes given) = []) :
    ∃ a, validator.make store.nodes given = .ok a ∧
      (newMemberBy .standard type given).run store = .ok (add a).2 (add a).1 := by
  obtain ⟨a, made⟩ := law.exists_make fine
  refine ⟨a, made, ?_⟩
  rw [law.made, made]

/-- and is refused for all that there is to report. -/
theorem newMember_cases (law : Making store type validator content add) (given : Given) :
    (∃ a, validator.make store.nodes given = .ok a ∧
      (∀ field ∈ type.fields, refusals (field.initial store.nodes given) = []) ∧
      (newMemberBy .standard type given).run store = .ok (add a).2 (add a).1) ∨
    ∃ errors, errors ≠ [] ∧
      errors = type.fields.flatMap (fun field => refusals (field.initial store.nodes given)) ∧
      (newMemberBy .standard type given).run store = .error (.fields errors) store := by
  rw [law.made]
  cases made : validator.make store.nodes given with
  | ok a => exact .inl ⟨a, rfl, law.fine_of_make made, rfl⟩
  | error errors =>
      obtain ⟨wrong, all⟩ := law.collects made
      exact .inr ⟨errors, wrong, all, rfl⟩

/-- Assignments to a new member leave the member that holds all that was assigned, whatever else
it held. -/
theorem run_assignEach (law : Making store type validator content add)
    (contents : Field → Option Content) {order : List (Field × Value)}
    (distinct : (order.map Prod.fst).Nodup)
    (accepted : ∀ field value, (field, value) ∈ order → field ∈ type.fields ∧
      ∃ x, field.read store.nodes value = .ok x ∧ contents field = some x)
    (a : α) (fresh : .parameters ∈ order.map Prod.fst →
      content a .parameters = Field.parameters.default?) :
    ∃ b, (add b).2 = (add a).2 ∧
      (assignEach .standard (add a).2 order).run (add a).1 = .ok ⟨⟩ (add b).1 ∧
      ∀ field, content b field =
        if field ∈ order.map Prod.fst then contents field else content a field := by
  induction order generalizing a with
  | nil => exact ⟨a, rfl, rfl, fun field => by simp⟩
  | cons first rest ih =>
      obtain ⟨field, value⟩ := first
      obtain ⟨new, distinct⟩ := List.nodup_cons.1 distinct
      obtain ⟨own, x, read, holds⟩ := accepted field value (.head _)
      obtain ⟨between, taken, held⟩ := law.assigns (a := a) own read
      obtain ⟨same, run⟩ := law.replaced (fun here => fresh (here ▸ .head _)) taken
      have fresh (member : .parameters ∈ rest.map Prod.fst) :
          content between .parameters = Field.parameters.default? := by
        have other : Field.parameters ≠ field := by
          rintro rfl
          exact new member
        rw [held, Function.update_of_ne other]
        exact fresh (.tail _ member)
      obtain ⟨b, kept, others, result⟩ := ih distinct
        (fun field value member => accepted field value (.tail _ member)) between fresh
      refine ⟨b, kept.trans same, ?_, fun other => ?_⟩
      · rw [same] at others
        exact (run_bind_ok run).trans others
      · rw [result, held]
        by_cases here : other = field
        · subst here
          simp only [new, if_false, Function.update_self, List.map_cons, List.mem_cons, true_or,
            if_true, holds]
        · simp only [List.map_cons, List.mem_cons, here, false_or, ne_eq, not_false_eq_true,
            Function.update_of_ne]

/-- A new member that has its name already holds all given values once each of them has been
assigned, in whatever order. -/
theorem run_nameThenAssign (law : Making store type validator content add) {whole : α}
    (made : validator.make store.nodes given = .ok whole)
    {part : List Field} (once : part.Nodup) (own : ∀ field ∈ part, field ∈ type.fields)
    (covers : ∀ field ∈ type.fields, field = .name ∨ field ∈ part)
    {order : List (Field × Value)} (perm : order.Perm (given.listed part)) :
    (nameThenAssign .standard type given order).run store = .ok (add whole).2 (add whole).1 := by
  have distinct : (order.map Prod.fst).Nodup := by
    rw [(perm.map Prod.fst).nodup_iff, Given.map_fst_listed]
    exact once.filter _
  have listed (field : Field) (value : Value) (member : (field, value) ∈ order) :
      field ∈ type.fields ∧ given field = some value := by
    obtain ⟨there, offer⟩ := Given.mem_listed.1 (perm.mem_iff.1 member)
    exact ⟨own field there, offer⟩
  -- A field other than the name holds its default where the name alone is given.
  have nameless {field : Field} (other : field ≠ .name) :
      field.initial store.nodes given.nameAlone = field.absent := by
    rw [Field.initial, Given.nameAlone, if_neg other]
  have named : Field.name.initial store.nodes given.nameAlone =
      Field.name.initial store.nodes given := by
    rw [Field.initial, Given.nameAlone, if_pos rfl, Field.initial]
  have fineAlone : ∀ field ∈ type.fields,
      refusals (field.initial store.nodes given.nameAlone) = [] := by
    intro field member
    by_cases isName : field = .name
    · subst isName
      rw [named]
      exact law.fine_of_make made .name member
    · rw [nameless isName, field.refusals_absent, if_neg isName]
  obtain ⟨alone, madeAlone, started⟩ := law.run_newMember fineAlone
  obtain ⟨b, same, run, held⟩ := law.run_assignEach (content whole) distinct
    (fun field value member => by
      obtain ⟨own, offer⟩ := listed field value member
      obtain ⟨x, read, there⟩ := law.holds made field own
      rw [Field.initial, offer] at read
      exact ⟨own, x, read, there⟩)
    alone
    (fun member => by
      obtain ⟨⟨_, value⟩, inside, rfl⟩ := List.mem_map.1 member
      obtain ⟨x, read, there⟩ := law.holds madeAlone _ (listed _ value inside).1
      rw [nameless (by decide)] at read
      cases read
      exact there)
  have all : b = whole := by
    refine law.fieldwise fun field own => ?_
    rw [held]
    by_cases assigned : field ∈ order.map Prod.fst
    · rw [if_pos assigned]
    · rw [if_neg assigned]
      obtain ⟨x, read, there⟩ := law.holds madeAlone field own
      obtain ⟨y, again, here⟩ := law.holds made field own
      have unchanged : field.initial store.nodes given.nameAlone =
          field.initial store.nodes given := by
        by_cases isName : field = .name
        · rw [isName, named]
        · have none : given field = none := by
            by_contra some
            obtain ⟨value, offer⟩ := Option.ne_none_iff_exists'.1 some
            have inside := (covers field own).resolve_left isName
            exact assigned (List.mem_map.2
              ⟨_, perm.mem_iff.2 (Given.mem_listed.2 ⟨inside, offer⟩), rfl⟩)
          rw [nameless isName, Field.initial, none]
      cases read.symm.trans (unchanged.trans again)
      rw [there, here]
  subst all
  rw [nameThenAssign, run_bind_ok started, run_bind_ok run, ← same]
  rfl

end Making

end Op

/-! ## Parameters that are given as dictionaries -/

namespace Parameter

/-- A parameter that is made is refused for its fields. -/
theorem exists_of_mem_refusals_build {graph : Graph} {given : Given} {error : FieldError}
    (member : error ∈ refusals (build graph given)) :
    ∃ field problem, error = FieldError.on field problem := by
  have checked {α : Type} (field : Field) (f : α → Content) (result : Except Problem α)
      (member : error ∈ refusals (f <$> field.checked result)) :
      ∃ field problem, error = FieldError.on field problem := by
    cases result with
    | ok a => cases member
    | error problem => exact ⟨field, problem, List.mem_singleton.1 member⟩
  rw [refusals_build] at member
  obtain ⟨field, own, member⟩ := List.mem_flatMap.1 member
  rw [Field.initial] at member
  cases offer : given field with
  | none =>
      rw [offer, field.refusals_absent] at member
      by_cases isName : field = .name
      · exact ⟨field, .missing, by simpa [isName] using member⟩
      · simp [isName] at member
  | some value =>
      rw [offer] at member
      cases field with
      | name | typeHint | nullable | reference | defaultValue | hasDefaultValue =>
          exact checked _ _ _ member
      | _ => exact absurd own (by decide)

theorem refusals_readEntries (graph : Graph) (entries : List (Value × Value)) :
    refusals (readEntries graph entries) =
      entries.flatMap fun entry => refusals (readEntry graph entry) := by
  induction entries with
  | nil => rfl
  | cons entry rest ih =>
      rw [List.flatMap_cons, ← ih, readEntries]
      cases readEntry graph entry <;> cases readEntries graph rest <;> simp [refusals]

end Parameter

namespace Store

/-- The lines of an entry of the parameters: for a dictionary the lines of the parameter that it
would make, each behind the place of the entry. -/
def entryLines (store : Store) (validators : Validators) (key : Word) (item : Value) :
    List String :=
  let place := "parameters." ++ key.toText
  match item with
  | .parameter _ => []
  | .node h =>
      match store.nodes.get h with
      | .dict fields =>
          match (Op.newMemberBy validators .parameter (.ofEntries fields)).run store with
          | .error (.fields errors) _ =>
              errors.map fun error => place ++ "." ++ store.errorText error
          | _ => []
      | _ => [place ++ ": " ++ Problem.notParameter.message]
  | _ => [place ++ ": " ++ Problem.notParameter.message]

theorem errorText_inParameter (store : Store) (key : Word) (field : Field) (problem : Problem) :
    store.errorText (.inParameter (.word key) (.on field problem)) =
      "parameters." ++ key.toText ++ "." ++ store.errorText (.on field problem) := by
  have place : store.errorText (.inParameter (.word key) (.on field problem)) =
      String.intercalate "." ["parameters", key.toText, field.label] ++ ": " ++
        problem.message := rfl
  have own : store.errorText (.on field problem) =
      String.intercalate "." [field.label] ++ ": " ++ problem.message := rfl
  have dotted : "parameters." = "parameters" ++ "." := by decide
  rw [place, own, dotted]
  simp only [String.intercalate_cons_cons, String.intercalate_singleton, String.append_assoc]

theorem map_errorText_readDraft (store : Store) (key : Word) (item : Value) :
    (refusals (Parameter.readDraft store.nodes (.word key) item)).map store.errorText =
      store.entryLines .standard key item := by
  have misplaced : store.errorText (.inParameter (.word key) ⟨[], .notParameter⟩) =
      "parameters." ++ key.toText ++ ": " ++ Problem.notParameter.message := by
    have place : store.errorText (.inParameter (.word key) ⟨[], .notParameter⟩) =
        String.intercalate "." ["parameters", key.toText] ++ ": " ++
          Problem.notParameter.message := rfl
    have dotted : "parameters." = "parameters" ++ "." := by decide
    rw [place, dotted]
    simp only [String.intercalate_cons_cons, String.intercalate_singleton]
  unfold Parameter.readDraft entryLines
  cases item with
  | parameter h => rfl
  | node h =>
      cases content : store.nodes.get h with
      | dict fields =>
          simp only [content, (Op.making_parameter store).made,
            Validators.standard_parameter_make]
          have placed (error : FieldError) (member : error ∈ refusals
              (Parameter.build store.nodes (.ofEntries fields))) :
              store.errorText (.inParameter (.word key) error) =
                "parameters." ++ key.toText ++ "." ++ store.errorText error := by
            obtain ⟨field, problem, rfl⟩ := Parameter.exists_of_mem_refusals_build member
            exact store.errorText_inParameter key field problem
          cases built : Parameter.build store.nodes (.ofEntries fields) with
          | ok parameter => rfl
          | error errors =>
              rw [built] at placed
              simpa [refusals] using placed
      | _ => simp only [content, refusals, List.map_cons, List.map_nil, misplaced]
  | _ => simp only [refusals, List.map_cons, List.map_nil, misplaced]

/-- The lines about parameters that are given under words are those of the entries, in order. -/
theorem map_errorText_readAll (store : Store) {h : Handle .node} {named : List (Word × Value)}
    (content : store.nodes.get h = .dict (named.map fun entry => (.word entry.1, entry.2))) :
    (refusals (Parameter.readAll store.nodes (.node h))).map store.errorText =
      named.flatMap fun entry => store.entryLines .standard entry.1 entry.2 := by
  have all : refusals (Parameter.readAll store.nodes (.node h)) = refusals
      (Parameter.readEntries store.nodes (named.map fun entry => (.word entry.1, entry.2))) := by
    simp only [Parameter.readAll, content]
    cases Parameter.readEntries store.nodes _ <;> rfl
  have entry (key : Word) (item : Value) :
      refusals (Parameter.readEntry store.nodes (.word key, item)) =
        refusals (Parameter.readDraft store.nodes (.word key) item) := by
    rw [Parameter.readEntry]
    cases Parameter.readDraft store.nodes (.word key) item <;> rfl
  rw [all, Parameter.refusals_readEntries, List.flatMap_map, List.map_flatMap]
  simp only [entry, map_errorText_readDraft]

end Store

namespace Op

/-- What is reported of parameters that are given under words is said entry by entry. -/
theorem Making.entries {store : Store} {type : MemberType} {α : Type} {validator : Validator α}
    {content : α → Field → Option Content} {add : α → Store × Value}
    (law : Making store type validator content add) {target : Value}
    (member : target.memberType? = some type) (isMethod : type = .method) {given : Given}
    {h : Handle .node} {named : List (Word × Value)} (offer : given .parameters = some (.node h))
    (dict : store.nodes.get h = .dict (named.map fun entry => (Value.word entry.1, entry.2))) :
    (store.reported .standard target given .parameters).map store.errorText =
      named.flatMap fun entry => store.entryLines .standard entry.1 entry.2 := by
  subst isMethod
  rw [law.reported_eq member given (by decide), Field.initial, offer,
    ← store.map_errorText_readAll dict]
  exact congrArg _ (refusals_map _ _)

/-- What making a member and assigning to it have to do with each other. -/
structure Agreement (validators : Validators) (store : Store) (type : MemberType) (given : Given)
    (target : Value) : Prop where
  /-- A member can be made exactly when there is a name and every given value can be assigned to
  its field of a member that is there. -/
  accepted : (∃ made after, (newMemberBy validators type given).run store = .ok made after) ↔
    (given .name).isSome ∧ ∀ field ∈ type.fields, ∀ value, given field = some value →
      ∃ after, (assignBy validators target field value).run store = .ok ⟨⟩ after
  /-- Then the same objects are there as after a start with the name alone and an assignment of
  each given value, of that for the name too or of the others only, in any order. -/
  ordered : ∀ made after, (newMemberBy validators type given).run store = .ok made after →
    ∀ order : List (Field × Value),
      order.Perm (given.listed type.fields) ∨ order.Perm (given.listed (type.fields.erase .name)) →
        (nameThenAssign validators type given order).run store = .ok made after
  /-- Otherwise nothing is changed, and what is wrong is said field by field as the assignments
  say it. -/
  refused : ∀ fault after, (newMemberBy validators type given).run store = .error fault after →
    after = store ∧
      store.message fault = String.intercalate "\n" (type.fields.flatMap fun field =>
        (store.reported validators target given field).map store.errorText)
  /-- For parameters that are given under words it is said entry by entry. -/
  entries : type = .method → ∀ (h : Handle .node) (named : List (Word × Value)),
    given .parameters = some (.node h) →
    store.nodes.get h = .dict (named.map fun entry => (Value.word entry.1, entry.2)) →
      (store.reported validators target given .parameters).map store.errorText =
        named.flatMap fun entry => store.entryLines validators entry.1 entry.2

/-- Where members are made and assigned to as the rules of their fields say, both agree. -/
theorem newMember_agrees {validators : Validators} (lawful : validators.Lawful)
    {type : MemberType} {target : Value} (member : target.memberType? = some type) (store : Store)
    (given : Given) : Agreement validators store type given target := by
  obtain rfl := lawful.eq_standard
  obtain ⟨α, validator, content, add, law⟩ := exists_making store type
  have fine : (∀ field ∈ type.fields, refusals (field.initial store.nodes given) = []) ↔
      (given .name).isSome ∧ ∀ field ∈ type.fields, ∀ value, given field = some value →
        ∃ after, (assignBy .standard target field value).run store = .ok ⟨⟩ after := by
    constructor
    · intro fine
      have each {field : Field} (own : field ∈ type.fields) :=
        (law.reported_eq_nil_iff member given field).1
          ((law.reported_eq member given own).trans (fine field own))
      exact ⟨(each type.name_mem_fields).1 rfl, fun field own => (each own).2⟩
    · rintro ⟨named, each⟩ field own
      rw [← law.reported_eq member given own, law.reported_eq_nil_iff member given]
      exact ⟨fun isName => isName ▸ named, each field own⟩
  obtain ⟨whole, made, unreported, run⟩ | ⟨errors, wrong, rfl, run⟩ := law.newMember_cases given
  · refine ⟨iff_of_true ⟨_, _, run⟩ (fine.1 unreported), ?_, ?_, ?_⟩
    · intro _ _ success order perm
      rw [← success, run]
      obtain perm | perm := perm
      · exact law.run_nameThenAssign made type.nodup_fields (fun _ own => own)
          (fun _ own => .inr own) perm
      · exact law.run_nameThenAssign made (type.nodup_fields.erase .name)
          (fun _ => List.mem_of_mem_erase)
          (fun field own => or_iff_not_imp_left.2 fun other => (List.mem_erase_of_ne other).2 own)
          perm
    · intro fault after refused
      cases run.symm.trans refused
    · exact fun isMethod h named offer dict => law.entries member isMethod offer dict
  · refine ⟨iff_of_false ?_ ?_, ?_, ?_, ?_⟩
    · rintro ⟨_, _, success⟩
      cases run.symm.trans success
    · exact fun accepted => wrong (List.flatMap_eq_nil_iff.2 (fine.2 accepted))
    · intro _ _ success
      cases run.symm.trans success
    · intro fault after refused
      cases run.symm.trans refused
      refine ⟨rfl, ?_⟩
      rw [← List.map_flatMap, List.flatMap_congr fun field own =>
        law.reported_eq member given own]
      rfl
    · exact fun isMethod h named offer dict => law.entries member isMethod offer dict

/-- A store with a method, and with a parameter that has no name and an unclear flag. -/
def described : Store :=
  { Store.empty with
    nodes := (Arena.empty.push (.dict [(.text "nullable", .text "maybe")])).push
      (.dict [(.text "id", .node ⟨0⟩)])
    methods := Arena.empty.push default }

/-- A method without a name, with such a parameter, is refused for its own name first. -/
theorem newMember_agrees_described :
    let given := Given.ofPairs [("parameters", .node ⟨1⟩), ("static", .text "yes")]
    (Value.method ⟨0⟩).memberType? = some .method ∧
      Agreement .standard described .method given (.method ⟨0⟩) ∧
      (newMember .method given).run described = .error (.fields [.on .name .missing,
        .inParameter (.text "id") (.on .name .missing),
        .inParameter (.text "id") (.on .nullable .unclearFlag)]) described :=
  ⟨rfl, newMember_agrees Validators.lawful_standard rfl _ _, by with_unfolding_all rfl⟩

end Op

end PhpDecl
