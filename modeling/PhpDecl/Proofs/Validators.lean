import PhpDecl.Proofs.Fields

/-!
# The validators of the members are lawful

Members are put together from what is read for their fields, one behind the other, and assigned to
at one of them. Both keep to the rules of the fields (`Validators.lawful_standard`), and so would
whatever else is lawful (`Validators.Lawful.eq_standard`).
-/

namespace PhpDecl

/-- A result that is refused is refused for something. -/
def Explained {α : Type} (result : Checked α) : Prop := result ≠ .error []

namespace Explained

variable {α β : Type}

theorem ok (a : α) : Explained (.ok a) := nofun

theorem error (error : FieldError) (errors : List FieldError) :
    Explained (.error (error :: errors) : Checked α) := nofun

theorem of_error {result : Checked α} (explained : Explained result) {errors : List FieldError}
    (refused : result = .error errors) : Explained (.error errors : Checked β) := by
  rintro ⟨⟩
  exact explained refused

theorem checked (field : Field) (result : Except Problem α) : Explained (field.checked result) := by
  cases result with
  | ok a => exact ok a
  | error problem => exact error _ _

theorem map {result : Checked α} (explained : Explained result) (f : α → β) :
    Explained (f <$> result) := by
  cases result with
  | ok a => exact ok _
  | error errors => exact explained.of_error rfl

theorem and {make : Checked (α → β)} {field : Checked α} (before : Explained make)
    (last : Explained field) : Explained (make.and field) := by
  unfold Explained at *
  cases make <;> cases field <;> simp_all [Checked.and]

theorem take {given : Given} {field : Field} {read : Value → Checked α} {absent : Checked α}
    (present : ∀ value, Explained (read value)) (missing : Explained absent) :
    Explained (given.take field read absent) := by
  unfold Given.take
  split
  · exact present _
  · exact missing

theorem required {given : Given} {field : Field} {read : Value → Except Problem α} :
    Explained (given.required field read) := take (fun _ => checked _ _) (error _ _)

theorem optional {given : Given} {field : Field} {read : Value → Except Problem α} {default : α} :
    Explained (given.optional field read default) := take (fun _ => checked _ _) (ok _)

end Explained

namespace Checked

variable {α β : Type}

/-- Put together from a field are those that were put together before it, and the field. -/
theorem exists_of_and {make : Checked (α → β)} {field : Checked α} {b : β}
    (made : make.and field = .ok b) : ∃ f a, make = .ok f ∧ field = .ok a ∧ f a = b := by
  cases make <;> cases field <;> cases made
  exact ⟨_, _, rfl, rfl, rfl⟩

theorem refusals_start (make : α) : refusals (start make) = [] := rfl

theorem refusals_and (make : Checked (α → β)) (field : Checked α) :
    refusals (make.and field) = refusals make ++ refusals field := by
  cases make <;> cases field <;> simp [and, refusals]

end Checked

namespace Field

variable {α β : Type} {graph : Graph} {given : Given} {field : Field}

/-- What is taken for a field is what is read for it, where it is taken by the rule of the field. -/
theorem initial_eq_map (wrap : α → Content) {read : Value → Checked α} {absent : Checked α}
    (rule : ∀ value, field.read graph value = wrap <$> read value)
    (other : field.absent = wrap <$> absent) :
    field.initial graph given = wrap <$> given.take field read absent := by
  rw [initial, Given.take]
  cases given field with
  | none => exact other
  | some offered => exact rule offered

/-- What is taken for a field where a member is made. -/
def taken (graph : Graph) (given : Given) (field : Field) : Checked Content :=
  match field with
  | .name => .name <$> given.required field Value.readName
  | .comment | .typeHint | .returnType =>
      .text <$> given.optional field Value.readOptionalText none
  | .body => .text <$> given.optional field Value.readOptionalText (some "")
  | .value | .defaultValue =>
      .literal <$> given.optional field (Value.readLiteral graph) default
  | .visibility => .visibility <$> given.optional field Value.readVisibility none
  | .parameters => .parameters <$> given.take field (Parameter.readAll graph) (.ok .empty)
  | .static | .nullable | .reference | .hasDefaultValue | .final | .abstract | .returnNullable
  | .returnReference | .variadic => .flag <$> given.optional field Value.readFlag false

theorem initial_eq_taken (graph : Graph) (given : Given) (field : Field) :
    field.initial graph given = field.taken graph given := by
  cases field <;> exact initial_eq_map _ (fun _ => rfl) rfl

/-- The field takes what is read of a value, and refuses the value for what is wrong with it. -/
def Decided (assign : Graph → α → Field → Value → Checked α)
    (content : α → Field → Option Content) (field : Field) : Prop :=
  ∀ graph a value,
    (∀ x, field.read graph value = .ok x → ∃ b, assign graph a field value = .ok b ∧
      content b = Function.update (content a) field (some x)) ∧
    ∀ errors, field.read graph value = .error errors → assign graph a field value = .error errors

variable {assign : Graph → α → Field → Value → Checked α} {content : α → Field → Option Content}

theorem decided_of_put (wrap : β → Content) (read : Graph → Value → Checked β) (put : α → β → α)
    (rule : ∀ graph value, field.read graph value = wrap <$> read graph value)
    (reads : ∀ graph a value, assign graph a field value =
      read graph value >>= fun x => pure (put a x))
    (holds : ∀ a x, content (put a x) field = some (wrap x))
    (others : ∀ a x other, other ≠ field → content (put a x) other = content a other) :
    field.Decided assign content := by
  intro graph a value
  rw [rule, reads]
  cases read graph value with
  | error errors => exact ⟨nofun, fun _ same => by cases same; rfl⟩
  | ok x =>
      refine ⟨fun y same => ?_, nofun⟩
      cases same
      exact ⟨put a x, rfl, Function.eq_update_iff.2 ⟨holds a x, others a x⟩⟩

end Field

/-- A validator is lawful when it collects what is read for the fields, and assigns what is read. -/
theorem Validator.Lawful.of_fields {α : Type} {validator : Validator α} {fields : List Field}
    {content : α → Field → Option Content}
    (explained : ∀ graph given, Explained (validator.make graph given))
    (collected : ∀ graph given, refusals (validator.make graph given) =
      fields.flatMap fun field => refusals (field.initial graph given))
    (holds : ∀ {graph given a}, validator.make graph given = .ok a →
      ∀ field ∈ fields, ∃ x, field.initial graph given = .ok x ∧ content a field = some x)
    (decided : ∀ field ∈ fields, field.Decided validator.assign content)
    (lacks : ∀ {graph a field value}, field ∉ fields →
      validator.assign graph a field value = field.refused) : validator.Lawful fields content where
  holds := holds
  collects {graph given errors} refused :=
    ⟨fun none => explained graph given (none ▸ refused), by
      rw [← collected, refused]
      rfl⟩
  assigns own read := (decided _ own _ _ _).1 _ read
  refuses own read := (decided _ own _ _ _).2 _ read
  lacks := lacks

namespace Constant

theorem explained_build (graph : Graph) (given : Given) : Explained (build graph given) :=
  Explained.ok _ |>.and .required |>.and .optional |>.and .optional |>.and .optional

theorem decided : ∀ field ∈ fields, field.Decided assign content := by
  intro field own
  cases field with
  | name | comment | value | visibility =>
      refine Field.decided_of_put _ _ _ (fun _ _ => rfl) (fun _ _ _ => rfl) (fun _ _ => rfl)
        fun _ _ other differs => ?_
      cases other <;> first | rfl | exact absurd rfl differs
  | _ => exact absurd own (by decide)

theorem refusals_build (graph : Graph) (given : Given) : refusals (build graph given) =
    fields.flatMap fun field => refusals (field.initial graph given) := by
  simp only [build, fields, Field.initial_eq_taken, Field.taken, List.flatMap_cons,
    List.flatMap_nil, Checked.refusals_and, Checked.refusals_start, refusals_map,
    List.append_assoc, List.nil_append, List.append_nil]

/-- Everything that was put together was read for its field. -/
theorem holds_build {graph : Graph} {given : Given} {a : Constant}
    (built : build graph given = .ok a) :
    ∀ field ∈ fields, ∃ x, field.initial graph given = .ok x ∧ content a field = some x := by
  obtain ⟨_, _, made₃, visibility, rfl⟩ := Checked.exists_of_and built
  obtain ⟨_, _, made₂, value, rfl⟩ := Checked.exists_of_and made₃
  obtain ⟨_, _, made₁, comment, rfl⟩ := Checked.exists_of_and made₂
  obtain ⟨_, _, made₀, name, rfl⟩ := Checked.exists_of_and made₁
  cases made₀
  simp only [fields, List.forall_mem_cons, Field.initial_eq_taken, Field.taken, name, comment,
    value, visibility]
  exact ⟨⟨_, rfl, rfl⟩, ⟨_, rfl, rfl⟩, ⟨_, rfl, rfl⟩, ⟨_, rfl, rfl⟩, List.forall_mem_nil _⟩

theorem lawful : Validators.standard.constant.Lawful fields content := by
  refine .of_fields explained_build refusals_build holds_build decided fun {_ _ field _} other => ?_
  cases field with
  | name | comment | value | visibility => exact absurd (by decide) other
  | _ => rfl

theorem name_of_assign {graph : Graph} {a b : Constant} {field : Field}
    {value : Value} (assigned : a.assign graph field value = .ok b) (other : field ≠ .name) :
    b.name = a.name := by
  simpa [content] using lawful.content_of_assign assigned other.symm

end Constant

namespace Property

theorem explained_build (graph : Graph) (given : Given) : Explained (build graph given) :=
  Explained.ok _ |>.and .required |>.and .optional |>.and .optional |>.and .optional |>.and
    .optional

theorem decided : ∀ field ∈ fields, field.Decided assign content := by
  intro field own
  cases field with
  | name | comment | value | static | visibility =>
      refine Field.decided_of_put _ _ _ (fun _ _ => rfl) (fun _ _ _ => rfl) (fun _ _ => rfl)
        fun _ _ other differs => ?_
      cases other <;> first | rfl | exact absurd rfl differs
  | _ => exact absurd own (by decide)

theorem refusals_build (graph : Graph) (given : Given) : refusals (build graph given) =
    fields.flatMap fun field => refusals (field.initial graph given) := by
  simp only [build, fields, Field.initial_eq_taken, Field.taken, List.flatMap_cons,
    List.flatMap_nil, Checked.refusals_and, Checked.refusals_start, refusals_map,
    List.append_assoc, List.nil_append, List.append_nil]

theorem holds_build {graph : Graph} {given : Given} {a : Property}
    (built : build graph given = .ok a) :
    ∀ field ∈ fields, ∃ x, field.initial graph given = .ok x ∧ content a field = some x := by
  obtain ⟨_, _, made₄, visibility, rfl⟩ := Checked.exists_of_and built
  obtain ⟨_, _, made₃, static, rfl⟩ := Checked.exists_of_and made₄
  obtain ⟨_, _, made₂, value, rfl⟩ := Checked.exists_of_and made₃
  obtain ⟨_, _, made₁, comment, rfl⟩ := Checked.exists_of_and made₂
  obtain ⟨_, _, made₀, name, rfl⟩ := Checked.exists_of_and made₁
  cases made₀
  simp only [fields, List.forall_mem_cons, Field.initial_eq_taken, Field.taken, name, comment,
    value, static, visibility]
  exact ⟨⟨_, rfl, rfl⟩, ⟨_, rfl, rfl⟩, ⟨_, rfl, rfl⟩, ⟨_, rfl, rfl⟩, ⟨_, rfl, rfl⟩,
    List.forall_mem_nil _⟩

theorem lawful : Validators.standard.property.Lawful fields content := by
  refine .of_fields explained_build refusals_build holds_build decided fun {_ _ field _} other => ?_
  cases field with
  | name | comment | value | static | visibility => exact absurd (by decide) other
  | _ => rfl

theorem name_of_assign {graph : Graph} {a b : Property} {field : Field}
    {value : Value} (assigned : a.assign graph field value = .ok b) (other : field ≠ .name) :
    b.name = a.name := by
  simpa [content] using lawful.content_of_assign assigned other.symm

end Property

namespace Parameter

theorem explained_build (graph : Graph) (given : Given) : Explained (build graph given) :=
  Explained.ok _ |>.and .required |>.and .optional |>.and .optional |>.and .optional |>.and
    .optional |>.and .optional

theorem decided : ∀ field ∈ fields, field.Decided assign content := by
  intro field own
  cases field with
  | name | typeHint | nullable | reference | defaultValue | hasDefaultValue =>
      refine Field.decided_of_put _ _ _ (fun _ _ => rfl) (fun _ _ _ => rfl) (fun _ _ => rfl)
        fun _ _ other differs => ?_
      cases other <;> first | rfl | exact absurd rfl differs
  | _ => exact absurd own (by decide)

theorem refusals_build (graph : Graph) (given : Given) : refusals (build graph given) =
    fields.flatMap fun field => refusals (field.initial graph given) := by
  simp only [build, fields, Field.initial_eq_taken, Field.taken, List.flatMap_cons,
    List.flatMap_nil, Checked.refusals_and, Checked.refusals_start, refusals_map,
    List.append_assoc, List.nil_append, List.append_nil]

theorem holds_build {graph : Graph} {given : Given} {a : Parameter}
    (built : build graph given = .ok a) :
    ∀ field ∈ fields, ∃ x, field.initial graph given = .ok x ∧ content a field = some x := by
  obtain ⟨_, _, made₅, hasDefaultValue, rfl⟩ := Checked.exists_of_and built
  obtain ⟨_, _, made₄, defaultValue, rfl⟩ := Checked.exists_of_and made₅
  obtain ⟨_, _, made₃, reference, rfl⟩ := Checked.exists_of_and made₄
  obtain ⟨_, _, made₂, nullable, rfl⟩ := Checked.exists_of_and made₃
  obtain ⟨_, _, made₁, typeHint, rfl⟩ := Checked.exists_of_and made₂
  obtain ⟨_, _, made₀, name, rfl⟩ := Checked.exists_of_and made₁
  cases made₀
  simp only [fields, List.forall_mem_cons, Field.initial_eq_taken, Field.taken, name, typeHint,
    nullable, reference, defaultValue, hasDefaultValue]
  exact ⟨⟨_, rfl, rfl⟩, ⟨_, rfl, rfl⟩, ⟨_, rfl, rfl⟩, ⟨_, rfl, rfl⟩, ⟨_, rfl, rfl⟩, ⟨_, rfl, rfl⟩,
    List.forall_mem_nil _⟩

theorem lawful : Validators.standard.parameter.Lawful fields content := by
  refine .of_fields explained_build refusals_build holds_build decided fun {_ _ field _} other => ?_
  cases field with
  | name | typeHint | nullable | reference | defaultValue | hasDefaultValue =>
      exact absurd (by decide) other
  | _ => rfl

theorem name_of_assign {graph : Graph} {a b : Parameter} {field : Field}
    {value : Value} (assigned : a.assign graph field value = .ok b) (other : field ≠ .name) :
    b.name = a.name := by
  simpa [content] using lawful.content_of_assign assigned other.symm

theorem explained_readDraft (graph : Graph) (key value : Value) :
    Explained (readDraft graph key value) := by
  unfold readDraft
  split
  · exact .ok _
  · split
    · next entries _ =>
      have built := explained_build graph (.ofEntries entries)
      split
      · exact .ok _
      · next errors refused =>
        cases errors with
        | nil => exact absurd refused built
        | cons => exact .error _ _
    · exact .error _ _
  · exact .error _ _

theorem explained_readEntry (graph : Graph) (entry : Value × Value) :
    Explained (readEntry graph entry) := by
  have read := explained_readDraft graph entry.1 entry.2
  unfold readEntry
  split
  next => exact .ok _
  next refused => exact read.of_error refused
  next => exact .error _ _
  next => exact .error _ _

theorem explained_readEntries (graph : Graph) (entries : List (Value × Value)) :
    Explained (readEntries graph entries) := by
  induction entries with
  | nil => exact .ok _
  | cons entry rest ih =>
      have read := explained_readEntry graph entry
      unfold Explained at *
      unfold readEntries
      split <;> simp_all

theorem explained_readAll (graph : Graph) (value : Value) : Explained (readAll graph value) := by
  unfold readAll
  split
  · split
    · next entries _ =>
      have read := explained_readEntries graph entries
      cases drafts : readEntries graph entries with
      | ok => exact .ok _
      | error errors => exact read.of_error drafts
    · exact .checked _ _
  · exact .checked _ _

/-- A parameter that is there already is the one under the key. -/
theorem eq_of_readDraft {graph : Graph} {key value : Value} {h : Handle .parameter}
    (read : readDraft graph key value = .ok (.existing h)) : value = .parameter h := by
  unfold readDraft at read
  split at read
  · cases read
    rfl
  · split at read
    · split at read <;> cases read
    · cases read
  · cases read

theorem readDraft_of_readEntry {graph : Graph} {entry : Value × Value}
    {draft : String × Draft .parameter Parameter} (read : readEntry graph entry = .ok draft) :
    readDraft graph entry.1 entry.2 = .ok draft.2 := by
  unfold readEntry at read
  split at read
  next taken =>
    cases read
    exact taken
  all_goals cases read

theorem mem_parts_of_readEntries {graph : Graph} {entries : List (Value × Value)}
    {drafts : List (String × Draft .parameter Parameter)}
    (read : readEntries graph entries = .ok drafts) {h : Handle .parameter}
    (member : .existing h ∈ drafts.map Prod.snd) : .parameter h ∈ Entries.parts entries := by
  induction entries generalizing drafts with
  | nil =>
      cases read
      cases member
  | cons entry rest ih =>
      rw [readEntries] at read
      split at read
      next draft others first later =>
        cases read
        obtain here | there := List.mem_cons.1 member
        · have taken := readDraft_of_readEntry first
          rw [← here] at taken
          exact .tail _ (by rw [← eq_of_readDraft taken]; exact .head _)
        · exact .tail _ (.tail _ (ih later there))
      all_goals cases read

end Parameter

namespace Method

theorem explained_build (graph : Graph) (given : Given) : Explained (build graph given) :=
  Explained.ok _ |>.and .required |>.and .optional |>.and (.take (Parameter.explained_readAll
    graph) (.ok _)) |>.and .optional |>.and .optional |>.and .optional |>.and .optional |>.and
    .optional |>.and .optional |>.and .optional |>.and .optional |>.and .optional

theorem decided : ∀ field ∈ fields, field.Decided assign content := by
  intro field own
  cases field with
  | name | comment | body | static | final | abstract | visibility | returnType | returnNullable
  | returnReference | variadic =>
      refine Field.decided_of_put _ _ _ (fun _ _ => rfl) (fun _ _ _ => rfl) (fun _ _ => rfl)
        fun _ _ other differs => ?_
      cases other <;> first | rfl | exact absurd rfl differs
  | parameters =>
      refine Field.decided_of_put .parameters Parameter.readAll _ (fun _ _ => rfl)
        (fun _ _ _ => rfl) (fun _ _ => rfl) fun _ _ other differs => ?_
      cases other <;> first | rfl | exact absurd rfl differs
  | _ => exact absurd own (by decide)

theorem refusals_build (graph : Graph) (given : Given) : refusals (build graph given) =
    fields.flatMap fun field => refusals (field.initial graph given) := by
  simp only [build, fields, Field.initial_eq_taken, Field.taken, List.flatMap_cons,
    List.flatMap_nil, Checked.refusals_and, Checked.refusals_start, refusals_map,
    List.append_assoc, List.nil_append, List.append_nil]

theorem holds_build {graph : Graph} {given : Given} {a : Method (Draft .parameter Parameter)}
    (built : build graph given = .ok a) :
    ∀ field ∈ fields, ∃ x, field.initial graph given = .ok x ∧ content a field = some x := by
  obtain ⟨_, _, made₁₁, variadic, rfl⟩ := Checked.exists_of_and built
  obtain ⟨_, _, made₁₀, returnReference, rfl⟩ := Checked.exists_of_and made₁₁
  obtain ⟨_, _, made₉, returnNullable, rfl⟩ := Checked.exists_of_and made₁₀
  obtain ⟨_, _, made₈, returnType, rfl⟩ := Checked.exists_of_and made₉
  obtain ⟨_, _, made₇, visibility, rfl⟩ := Checked.exists_of_and made₈
  obtain ⟨_, _, made₆, abstract, rfl⟩ := Checked.exists_of_and made₇
  obtain ⟨_, _, made₅, final, rfl⟩ := Checked.exists_of_and made₆
  obtain ⟨_, _, made₄, static, rfl⟩ := Checked.exists_of_and made₅
  obtain ⟨_, _, made₃, body, rfl⟩ := Checked.exists_of_and made₄
  obtain ⟨_, _, made₂, parameters, rfl⟩ := Checked.exists_of_and made₃
  obtain ⟨_, _, made₁, comment, rfl⟩ := Checked.exists_of_and made₂
  obtain ⟨_, _, made₀, name, rfl⟩ := Checked.exists_of_and made₁
  cases made₀
  simp only [fields, List.forall_mem_cons, Field.initial_eq_taken, Field.taken, name, comment,
    parameters, body, static, final, abstract, visibility, returnType, returnNullable,
    returnReference, variadic]
  exact ⟨⟨_, rfl, rfl⟩, ⟨_, rfl, rfl⟩, ⟨_, rfl, rfl⟩, ⟨_, rfl, rfl⟩, ⟨_, rfl, rfl⟩, ⟨_, rfl, rfl⟩,
    ⟨_, rfl, rfl⟩, ⟨_, rfl, rfl⟩, ⟨_, rfl, rfl⟩, ⟨_, rfl, rfl⟩, ⟨_, rfl, rfl⟩, ⟨_, rfl, rfl⟩,
    List.forall_mem_nil _⟩

theorem lawful : Validators.standard.method.Lawful fields content := by
  refine .of_fields explained_build refusals_build holds_build decided fun {_ _ field _} other => ?_
  cases field with
  | name | comment | parameters | body | static | final | abstract | visibility | returnType
  | returnNullable | returnReference | variadic => exact absurd (by decide) other
  | _ => rfl

theorem name_of_assign {graph : Graph} {a b : Method (Draft .parameter Parameter)} {field : Field}
    {value : Value} (assigned : a.assign graph field value = .ok b) (other : field ≠ .name) :
    b.name = a.name := by
  simpa [content] using lawful.content_of_assign assigned other.symm

variable {graph : Graph} {a b : Method (Draft .parameter Parameter)} {field : Field} {value : Value}

theorem parameters_of_assign (assigned : a.assign graph field value = .ok b) :
    b.parameters = a.parameters ∨
      field = .parameters ∧ Parameter.readAll graph value = .ok b.parameters := by
  by_cases same : field = .parameters
  · subst same
    refine .inr ⟨rfl, ?_⟩
    change (Parameter.readAll graph value >>= fun parameters =>
      pure { a with parameters }) = .ok b at assigned
    cases read : Parameter.readAll graph value with
    | error errors =>
        rw [read] at assigned
        cases assigned
    | ok parameters =>
        rw [read] at assigned
        cases assigned
        rfl
  · refine .inl ?_
    simpa [content] using lawful.content_of_assign assigned (Ne.symm same)

/-- A method that is made has the parameters that are read of what is given for them, -/
theorem readAll_of_build {given : Given} (built : build graph given = .ok b)
    (offer : given .parameters = some value) :
    Parameter.readAll graph value = .ok b.parameters := by
  obtain ⟨x, read, held⟩ := holds_build built .parameters (by decide)
  cases held
  rw [Field.initial, offer] at read
  change Content.parameters <$> Parameter.readAll graph value = _ at read
  cases taken : Parameter.readAll graph value with
  | error errors =>
      rw [taken] at read
      cases read
  | ok parameters =>
      rw [taken] at read
      rw [Content.parameters.inj (Except.ok.inj read)]

/-- and none when nothing is given. -/
theorem parameters_of_build {given : Given} (built : build graph given = .ok b)
    (bare : given .parameters = none) : b.parameters = .empty := by
  obtain ⟨x, read, held⟩ := holds_build built .parameters (by decide)
  cases held
  rw [Field.initial, bare] at read
  exact (Content.parameters.inj (Except.ok.inj read)).symm

end Method

theorem Field.explained_read (graph : Graph) (field : Field) (value : Value) :
    Explained (field.read graph value) := by
  cases field with
  | parameters => exact (Parameter.explained_readAll graph value).map _
  | _ => exact (Explained.checked _ _).map _

/-- An assignment that is refused is refused for something. -/
theorem Validator.Lawful.wrong_of_assign {α : Type} {validator : Validator α} {fields : List Field}
    {content : α → Field → Option Content} (lawful : validator.Lawful fields content)
    {graph : Graph} {a : α} {field : Field} {value : Value} {errors : List FieldError}
    (refused : validator.assign graph a field value = .error errors) : errors ≠ [] := by
  rintro rfl
  by_cases own : field ∈ fields
  · cases read : field.read graph value with
    | ok x =>
        obtain ⟨b, taken, -⟩ := lawful.assigns (a := a) own read
        cases taken.symm.trans refused
    | error errors =>
        cases (lawful.refuses own read).symm.trans refused
        exact field.explained_read graph value read
  · cases (lawful.lacks own).symm.trans refused

/-- The standard validators are lawful, -/
theorem Validators.lawful_standard : standard.Lawful where
  constant := Constant.lawful
  property := Property.lawful
  parameter := Parameter.lawful
  method := Method.lawful

/-- and there are no others. -/
theorem Validators.Lawful.eq_standard {validators : Validators} (lawful : validators.Lawful) :
    validators = .standard := by
  have constant := lawful.constant.eq Constant.lawful Constant.fieldwise
  have property := lawful.property.eq Property.lawful Property.fieldwise
  have parameter := lawful.parameter.eq Parameter.lawful Parameter.fieldwise
  have method := lawful.method.eq Method.lawful Method.fieldwise
  cases validators
  simp_all [standard]

namespace Store

/-- Where every parameter exists there is nothing to add. -/
theorem settleMethod_existing (store : Store) (method : Method (Handle .parameter)) :
    store.settleMethod (method.mapParameters .existing) = (store, method) := by
  have settled (entries : List (String × Handle .parameter)) :
      Entries.mapAccum Arena.settle store.parameters
        (entries.map fun entry => (entry.1, .existing entry.2)) =
      (store.parameters, entries) := by
    induction entries with
    | nil => rfl
    | cons entry rest ih => simp only [List.map_cons, Entries.mapAccum, Arena.settle, ih]
  simp only [settleMethod, Method.mapParameters, OrderedMap.mapAccum, OrderedMap.mapValues, settled]

/-- Where the parameters stayed, the method has those that it had. -/
theorem parameters_settleMethod (store : Store) {method : Method (Handle .parameter)}
    {drafted : Method (Draft .parameter Parameter)}
    (kept : drafted.parameters = (method.mapParameters .existing).parameters) :
    (store.settleMethod drafted).2.parameters = method.parameters := by
  have settled : (store.settleMethod drafted).2.parameters =
      (store.settleMethod (method.mapParameters .existing)).2.parameters := by
    simp only [settleMethod, kept]
  rw [settled, settleMethod_existing]

end Store

namespace Op

theorem run_get_bind {α : Type} (next : Store → Op α) (store : Store) :
    (get >>= next).run store = (next store).run store := rfl

theorem run_ofFields_bind {α β : Type} (result : Except (List FieldError) α) (next : α → Op β)
    (store : Store) : (ofFields result >>= next).run store =
      match result with
      | .ok a => (next a).run store
      | .error errors => .error (.fields errors) store := by
  cases result <;> rfl

/-- The parameters of a method all exist, until one of its fields is assigned to. -/
theorem run_assign_method (store : Store) (h : Handle .method) (field : Field) (value : Value) :
    (assign (.method h) field value).run store =
      match ((store.methods.get h).mapParameters .existing).assign store.nodes field value with
      | .ok d => .ok ⟨⟩ ((store.settleMethod d).1.setMethod h (store.settleMethod d).2)
      | .error errors => .error (.fields errors) store := by
  change (ofFields (((store.methods.get h).mapParameters .existing).assign store.nodes field
    value) >>= _).run _ = _
  rw [run_ofFields_bind]
  cases ((store.methods.get h).mapParameters .existing).assign store.nodes field value <;> rfl

end Op

end PhpDecl
