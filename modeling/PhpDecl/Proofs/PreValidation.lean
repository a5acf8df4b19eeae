import PhpDecl.Proofs.LongIntegers
import PhpDecl.Proofs.MemberOutcomes
import PhpDecl.Proofs.Rendering

/-!
# Checks in front of members

A declaration that makes a member checks the name and the value before, so that the checks of the
member itself are never what a call is refused for (`Session.Reachable.prevalidates`): the call is
refused for what it is given, in words of its own, and otherwise every member that it makes passes
its own checks and is kept under the name and with the value that were given.
-/

namespace PhpDecl

/-- Whether a value can be gone through. -/
def Value.isIterable : Value → Bool
  | .atom (.word _) | .node _ | .bytes _ | .map _ => true
  | .constant _ | .property _ | .parameter _ | .method _ => true
  | _ => false

namespace Op

/-! ## Going through values -/

namespace Total

variable {α β : Type}

theorem newNode (node : Node) : Total (newNode node) := fun _ => ⟨_, _, rfl⟩

theorem embed (literal : Literal) : Total (embed literal) := fun _ => ⟨_, _, rfl⟩

theorem mapM {f : α → Op β} (each : ∀ a, Total (f a)) (items : List α) : Total (items.mapM f) := by
  induction items with
  | nil => exact .pure []
  | cons first rest ih =>
      rw [List.mapM_cons]
      exact .bind (each first) fun b => .bind ih fun others => .pure (b :: others)

theorem fieldOf (target : Value) (field : Field) : Total (fieldOf target field) := by
  have embedded (literal : Literal) : Total (do return some (← Op.embed literal)) :=
    .bind (.embed literal) fun _ => .pure _
  intro store
  cases target with
  | constant c =>
      have total : Total (constantField (store.constants.get c) field) := by
        cases field <;> first | exact .pure _ | exact embedded _
      exact total store
  | property p =>
      have total : Total (propertyField (store.properties.get p) field) := by
        cases field <;> first | exact .pure _ | exact embedded _
      exact total store
  | parameter p =>
      have total : Total (parameterField (store.parameters.get p) field) := by
        cases field <;> first | exact .pure _ | exact embedded _
      exact total store
  | method m =>
      have total : Total (methodField (store.methods.get m) field) := by
        cases field <;> first | exact .pure _ | exact .bind (.newNode _) fun _ => .pure _
      exact total store
  | _ => exact ⟨_, _, rfl⟩

theorem fieldPairs (target : Value) (fields : List Field) : Total (fieldPairs target fields) := by
  refine .bind (.mapM (fun field => .bind (.fieldOf target field) fun value => ?_) fields)
    fun _ => .pure _
  cases value with
  | none => exact .pure []
  | some value => exact .bind (.newNode _) fun _ => .pure _

end Total

/-- A value can be gone through, or it is refused as one that cannot. -/
theorem items_cases (store : Store) (value : Value) :
    (value.isIterable = true ∧ ∃ parts after, (items value).run store = .ok parts after) ∨
      value.isIterable = false ∧
        (items value).run store = .error (.notIterable (store.typeOf value)) store := by
  rw [items, run_get_bind]
  cases value with
  | atom a =>
      cases a with
      | word w => exact .inl ⟨rfl, _, _, rfl⟩
      | _ => exact .inr ⟨rfl, rfl⟩
  | node n =>
      dsimp only
      split <;> exact .inl ⟨rfl, _, _, rfl⟩
  | bytes _ | map _ => exact .inl ⟨rfl, _, _, rfl⟩
  | constant _ | property _ | parameter _ | method _ =>
      exact .inl ⟨rfl, Total.fieldPairs _ _ store⟩
  | _ => exact .inr ⟨rfl, rfl⟩

/-- Values stand under keys in dictionaries alone, and these are gone through as they are. -/
theorem exists_of_keyed {store between : Store} {members key value : Value}
    {entries : List (Option Value × Value)}
    (gone : (keyedItems members).run store = .ok entries between)
    (member : (some key, value) ∈ entries) :
    between = store ∧ ∃ h, members = .node h ∧ key ∈ (store.nodes.get h).parts ∧
      value ∈ (store.nodes.get h).parts := by
  obtain ⟨node, looked⟩ : ∃ node, (node? members).run store = .ok node store := by
    cases members <;> exact ⟨_, rfl⟩
  rw [keyedItems, run_bind_ok looked] at gone
  split at gone
  next pairs =>
    cases gone
    obtain ⟨pair, inside, same⟩ := List.mem_map.1 member
    cases same
    cases members with
    | node h =>
        have content : store.nodes.get h = .dict pairs := by
          injection looked with same
          exact Option.some.inj same
        refine ⟨rfl, h, rfl, ?_⟩
        rw [content]
        exact ⟨List.mem_flatMap.2 ⟨_, inside, by simp⟩, List.mem_flatMap.2 ⟨_, inside, by simp⟩⟩
    | _ => cases looked
  next =>
    obtain ⟨parts, _, _, gone⟩ := exists_of_run_bind gone
    cases gone
    obtain ⟨_, _, same⟩ := List.mem_map.1 member
    cases same

theorem keyedItems_cases (store : Store) (value : Value) :
    (value.isIterable = true ∧ ∃ entries after,
      (keyedItems value).run store = .ok entries after) ∨
    value.isIterable = false ∧
      (keyedItems value).run store = .error (.notIterable (store.typeOf value)) store := by
  obtain ⟨node, looked⟩ : ∃ node, (node? value).run store = .ok node store := by
    cases value <;> exact ⟨_, rfl⟩
  rw [keyedItems, run_bind_ok looked]
  obtain ⟨iterable, parts, after, ran⟩ | ⟨fixed, refused⟩ := items_cases store value
  · refine .inl ⟨iterable, ?_⟩
    split
    · exact ⟨_, _, rfl⟩
    · exact ⟨_, _, run_bind_ok ran⟩
  · refine .inr ⟨fixed, ?_⟩
    have plain : node = none := by
      cases value with
      | node n => cases fixed
      | _ => cases looked; rfl
    subst plain
    exact run_bind_error refused

end Op

/-! ## What calls are refused for -/

/-- The name that an entry of constants goes by: that of a constant, or the key of a value. -/
def Store.nameGiven (store : Store) : Option Value × Value → Option String
  | (_, .constant c) => some (store.constants.get c).name.text
  | (key, _) => (key.bind Value.word?).map Word.toText

namespace MemberCall

/-- The call makes members of what it is given: it adds one, or sets constants, which may be given
by their values. -/
def MakesMembers : MemberCall → Prop
  | set sort _ => sort = .constant
  | addConstant _ _ | addProperty _ _ | addMethod _ => True

/-- There is something wrong with what a call is given: a name that is no identifier, a value that
cannot be dumped, an input that cannot be gone through, or an entry that no constant is made of. -/
inductive Refused (store : Store) : MemberCall → Fault → Prop
  | unnamed {call : MemberCall} {name : Value} (given : call.name? = some name)
      (malformed : name.isIdentifier = false) : Refused store call (.invalidName .member name)
  | undumped {call : MemberCall} {value : Value} (given : call.value? = some value)
      {fault : DumpFault} (refused : store.nodes.dump .standard value = .error fault) :
      Refused store call (.notDumpable fault)
  | notIterable {members : Value} (fixed : members.isIterable = false) :
      Refused store (.set .constant members) (.notIterable (store.typeOf members))
  | misfit {members : Value} {entries : List (Option Value × Value)} {between : Store}
      (gone : (Op.keyedItems members).run store = .ok entries between)
      {entry : Option Value × Value} (member : entry ∈ entries) {fault : Fault}
      (drafted : between.Drafted entry (.error fault)) :
      Refused store (.set .constant members) fault

/-- What a member reports of its fields is never what a call is refused for. -/
theorem Refused.ne_fields {store : Store} {call : MemberCall} {fault : Fault}
    (refused : Refused store call fault) (errors : List FieldError) : fault ≠ .fields errors := by
  cases refused with
  | misfit _ _ drafted => cases drafted <;> exact nofun
  | _ => exact nofun

/-- The type of the error that a call meets: the model finds something wrong with what the call is
given, or it cannot be gone through, or an integer in it is too long to be written. -/
inductive Raises (store : Store) : MemberCall → ErrorType → Prop
  | invalid (call : MemberCall) : Raises store call .invalid
  | notIterable {members : Value} (fixed : members.isIterable = false) :
      Raises store (.set .constant members) .type
  | tooLong {call : MemberCall} {value : Value} {n : Int} (given : value ∈ call.args)
      (contains : store.Contains n value) (long : 4300 < digitCount n) : Raises store call .value

/-- What a call did with what it was given: the members that it made pass their own checks, and are
kept under the name and with the value that were given. Of several constants under one name the last
is kept. -/
inductive Stored (h : Handle .classType) (store : Store) : MemberCall → Value → Store → Prop
  | constant {name value : Value} {c : Handle .constant} {after : Store}
      (adds : Store.Adds h .constant name (.constant c) store after)
      (makes : store.nodes.Makes Constant.build Constant.name Constant.value name value
        (after.constants.get c)) : Stored h store (.addConstant name value) (.constant c) after
  | property {name : Value} {value : Option Value} {p : Handle .property} {after : Store}
      (adds : Store.Adds h .property name (.property p) store after)
      (makes : store.nodes.Makes Property.build Property.name Property.value name
        (value.getD .null) (after.properties.get p)) :
      Stored h store (.addProperty name value) (.property p) after
  | method {name : Value} {m : Handle .method} {after : Store}
      (adds : Store.Adds h .method name (.method m) store after)
      (makes : store.nodes.MakesMethod (store.classes.get h).declaration.kind name
        (after.methods.get m)) : Stored h store (.addMethod name) (.method m) after
  | constants {members : Value} {entries : List (Option Value × Value)} {between after : Store}
      (gone : (Op.keyedItems members).run store = .ok entries between)
      (each : ∀ front key value rest, entries = front ++ (key, value) :: rest →
        value.sort? ≠ some .constant → ∃ name constant, key = some name ∧
          between.nodes.Makes Constant.build Constant.name Constant.value name value constant ∧
          ((∃ c, ¬between.constants.Has c ∧ after.constants.get c = constant ∧
              (constant.name.text, .constant c) ∈ after.held (.constants h)) ∨
            ∃ later ∈ rest, between.nameGiven later = some constant.name.text)) :
      Stored h store (.set .constant members) (.classType h) after

end MemberCall

/-- The name of a member is an identifier. -/
theorem Value.isIdentifier_of_name {name : Value} {identifier : Identifier}
    (named : ∃ word, name = .word word ∧ identifier.text = word.toText) :
    name.isIdentifier = true := by
  obtain ⟨word, rfl, same⟩ := named
  have valid := identifier.valid
  rwa [same] at valid

/-- The value of a member is dumped. -/
theorem Graph.Makes.dump_ne_error {α : Type} {graph : Graph}
    {build : Graph → Given → Except (List FieldError) α} {nameOf : α → Identifier}
    {valueOf : α → ShallowLiteral} {name value : Value} {member : α}
    (makes : graph.Makes build nameOf valueOf name value member) (fault : DumpFault) :
    graph.dump .standard value ≠ .error fault := by
  rw [ne_eq, dump_eq_error_iff, makes.value]
  exact nofun

namespace Store

variable {store after : Store} {h : Handle .classType}

theorem Puts.nameGiven_eq {entry : Option Value × Value} {put : String × Option Value}
    (puts : Puts .constant store after entry put) : store.nameGiven entry = some put.1 := by
  have keyed {key value : Value} {constant : Constant}
      (makes : store.nodes.Makes Constant.build Constant.name Constant.value key value constant)
      (other : value.sort? ≠ some .constant) :
      store.nameGiven (some key, value) = some constant.name.text := by
    obtain ⟨word, rfl, named⟩ := makes.name
    rw [named]
    cases value with
    | constant c => exact absurd rfl other
    | _ => rfl
  cases puts with
  | @ready key member sorted =>
      cases member with
      | constant c => rfl
      | _ => cases sorted
  | made _ makes other => exact keyed makes other
  | passed _ makes other => exact keyed makes other

/-- Nothing is made of an entry that something is wrong with. -/
theorem Drafted.not_puts {entry : Option Value × Value} {fault : Fault}
    (drafted : store.Drafted entry (.error fault)) (put : String × Option Value) :
    ¬Puts .constant store after entry put := by
  have refutes {name value : Value} {constant : Constant}
      (makes : store.nodes.Makes Constant.build Constant.name Constant.value name value constant)
      (drafted : store.Drafted (some name, value) (.error fault)) : False := by
    have valid := Value.isIdentifier_of_name makes.name
    cases drafted with
    | unkeyed none =>
        obtain none | none := none
        · cases none
        · cases none
          cases valid
    | unnamed malformed => cases malformed.symm.trans valid
    | undumped refused => exact makes.dump_ne_error _ refused
  intro puts
  cases puts with
  | ready sorted =>
      cases drafted with
      | unkeyed _ other | unnamed _ other | undumped _ other => exact other sorted
  | made _ makes => exact refutes makes drafted
  | passed _ makes => exact refutes makes drafted

/-- What no later entry takes the place of is kept. -/
theorem Fills.exists_of_last {sort : MemberSort} {entries : List (Option Value × Value)}
    {earlier later : List (String × Option Value)} {put : String × Option Value}
    (fills : Fills h sort entries (earlier ++ put :: later) store after)
    (last : put.1 ∉ later.map Prod.fst) :
    ∃ member, put.2 = some member ∧ (put.1, member) ∈ after.held (sort.collection h) := by
  have absent : put.1 ∉ later.reverse.map Prod.fst := by simpa using last
  have found : (Entries.find? (· == ·) put.1 (after.held (sort.collection h))).map some =
      some put.2 := by
    rw [← Entries.find?_map fun _ => some, fills.held, Entries.find?_ofList, List.reverse_append,
      List.reverse_cons, List.append_assoc, Entries.find?_append,
      Entries.find?_eq_none_iff.2 absent]
    simp [Entries.find?]
  obtain ⟨member, held, same⟩ := Option.map_eq_some_iff.1 found
  exact ⟨member, same.symm, (Entries.find?_eq_some_iff (nodup_keys _ _)).1 held⟩

/-- Each value of the entries is made into a constant, which is kept unless a later entry has the
same name. -/
theorem Fills.kept {entries : List (Option Value × Value)} {written : List (String × Option Value)}
    (fills : Fills h .constant entries written store after)
    {front rest : List (Option Value × Value)} {key : Option Value} {value : Value}
    (split : entries = front ++ (key, value) :: rest) (other : value.sort? ≠ some .constant) :
    ∃ name constant, key = some name ∧
      store.nodes.Makes Constant.build Constant.name Constant.value name value constant ∧
      ((∃ c, ¬store.constants.Has c ∧ after.constants.get c = constant ∧
          (constant.name.text, .constant c) ∈ after.held (.constants h)) ∨
        ∃ later ∈ rest, store.nameGiven later = some constant.name.text) := by
  subst split
  obtain ⟨before, put, others, rfl, puts, later⟩ := Graph.exists_split_of_forall₂ fills.puts
  have replaced (member : put.1 ∈ others.map Prod.fst) :
      ∃ later ∈ rest, store.nameGiven later = some put.1 := by
    obtain ⟨other, inside, same⟩ := List.mem_map.1 member
    obtain ⟨entry, here, puts⟩ := Graph.exists_of_mem_right later inside
    exact ⟨entry, here, same ▸ puts.nameGiven_eq⟩
  cases puts with
  | ready sorted => exact absurd sorted other
  | @made name _ constant c _ makes _ new has holds =>
      refine ⟨name, constant, rfl, makes, ?_⟩
      by_cases last : constant.name.text ∈ others.map Prod.fst
      · exact .inr (replaced last)
      · obtain ⟨_, ⟨⟩, held⟩ := fills.exists_of_last last
        exact .inl ⟨c, new, holds, held⟩
  | @passed name _ constant _ makes =>
      refine ⟨name, constant, rfl, makes, .inr (replaced ?_)⟩
      by_contra last
      obtain ⟨_, ⟨⟩, -⟩ := fills.exists_of_last last

end Store

namespace MemberCall

variable {store : Store} {h : Handle .classType} {fault : Fault}

/-- A member that is added is given a name that is an identifier, and a value that is dumped. -/
theorem not_refused {call : MemberCall} (one : ∀ members, call ≠ .set .constant members)
    (named : ∀ name ∈ call.name?, name.isIdentifier = true)
    (dumped : ∀ value ∈ call.value?, ∀ fault, store.nodes.dump .standard value ≠ .error fault) :
    ¬call.Refused store fault := by
  intro refused
  cases refused with
  | unnamed given malformed => cases malformed.symm.trans (named _ given)
  | undumped given refused => exact dumped _ given _ refused
  | notIterable | misfit => exact one _ rfl

/-- Something is made of every entry of constants that were set. -/
theorem not_refused_of_fills {members : Value} {entries : List (Option Value × Value)}
    {written : List (String × Option Value)} {between after : Store}
    (gone : (Op.keyedItems members).run store = .ok entries between)
    (fills : Store.Fills h .constant entries written between after) :
    ¬(set .constant members).Refused store fault := by
  intro refused
  cases refused with
  | unnamed given | undumped given => cases given
  | notIterable fixed =>
      obtain ⟨iterable, -⟩ | ⟨-, refused⟩ := Op.keyedItems_cases store members
      · cases fixed.symm.trans iterable
      · cases gone.symm.trans refused
  | misfit ran member drafted =>
      cases gone.symm.trans ran
      obtain ⟨front, rest, rfl⟩ := List.append_of_mem member
      obtain ⟨-, put, -, -, puts, -⟩ := Graph.exists_split_of_forall₂ fills.puts
      exact drafted.not_puts put puts

/-- What a call that makes members is refused for is wrong with what it is given. -/
theorem Outcome.refused (commented : Op.Commented store) {call : MemberCall}
    (making : call.MakesMembers) {after : Store}
    (outcome : call.Outcome h store (.error fault after)) : call.Refused store fault := by
  cases outcome with
  | @notIterable sort members _ _ refused =>
      cases making
      obtain ⟨-, _, _, gone⟩ | ⟨fixed, same⟩ := Op.keyedItems_cases store members
      · cases gone.symm.trans refused
      · cases same.symm.trans refused
        exact .notIterable fixed
  | @notDrafted members _ _ gone _ member _ drafted =>
      have kept := Op.Keeps.keyedItems (P := Op.Commented) members store commented
      rw [gone] at kept
      rw [Op.refusal_eq_of_commented kept]
      exact .misfit gone member drafted
  | notListed _ listed =>
      cases making
      cases listed
  | notNamed given malformed =>
      rw [Op.refusal_eq_of_commented commented]
      exact .unnamed given malformed
  | notDumped given refused => exact .undumped given refused

/-- The value that a member is made of is given, or null, in which there are no integers. -/
theorem mem_args_of_value? {call : MemberCall} {value : Value} (given : call.value? = some value)
    {n : Int} (contains : store.Contains n value) : value ∈ call.args := by
  cases call with
  | set | addMethod => cases given
  | addConstant name value =>
      cases given
      exact .tail _ (.head _)
  | addProperty name value =>
      cases value with
      | none =>
          cases given
          cases contains
      | some value =>
          cases given
          exact .tail _ (.head _)

theorem mem_args_of_name? {call : MemberCall} {name : Value} (given : call.name? = some name) :
    name ∈ call.args := by
  cases call with
  | set => cases given
  | addConstant | addProperty | addMethod =>
      cases given
      exact .head _

/-- What a call is refused for by the model is an error of the model's own, unless there is an
integer that is too long. -/
theorem Raises.of_invalid {call : MemberCall} {after : Store}
    (invalid : fault.errorType = .invalid) (unworded : ∀ most, after.tooLong? fault = some most →
      ∃ value ∈ call.args, ∃ n, store.Contains n value ∧ 4300 < digitCount n) :
    call.Raises store (after.errorType fault) := by
  rw [Store.errorType]
  cases long : after.tooLong? fault with
  | none => exact invalid ▸ .invalid call
  | some most =>
      obtain ⟨value, given, n, contains, digits⟩ := unworded most long
      exact .tooLong given contains digits

/-- A call that makes members meets an error of the model's own, unless it is given something that
cannot be gone through or an integer that is too long. -/
theorem Outcome.raises (commented : Op.Commented store) {call : MemberCall}
    (making : call.MakesMembers) {after : Store}
    (outcome : call.Outcome h store (.error fault after)) :
    call.Raises store (after.errorType fault) := by
  cases outcome with
  | @notIterable sort members _ _ refused =>
      cases making
      obtain ⟨-, _, _, gone⟩ | ⟨fixed, same⟩ := Op.keyedItems_cases store members
      · cases gone.symm.trans refused
      · cases same.symm.trans refused
        exact .notIterable fixed
  | @notDrafted members _ _ gone _ member _ drafted =>
      have kept := Op.Keeps.keyedItems (P := Op.Commented) members store commented
      rw [gone] at kept
      rw [Op.refusal_eq_of_commented kept]
      cases drafted with
      | unkeyed => exact .of_invalid rfl nofun
      | unnamed =>
          obtain ⟨rfl, h, rfl, key, -⟩ := Op.exists_of_keyed gone member
          refine .of_invalid rfl fun most unworded => ⟨_, .head _, ?_⟩
          obtain ⟨n, contains, long⟩ := Store.exists_of_not_shown unworded
          exact ⟨n, .part key contains, long⟩
      | undumped refused =>
          obtain ⟨rfl, h, rfl, -, value⟩ := Op.exists_of_keyed gone member
          refine .of_invalid rfl fun most unworded => ⟨_, .head _, ?_⟩
          obtain ⟨n, contains, long⟩ := Store.exists_of_tooLong?_dump refused unworded
          exact ⟨n, .part value contains, long⟩
  | notListed _ listed =>
      cases making
      cases listed
  | notNamed given malformed =>
      rw [Op.refusal_eq_of_commented commented]
      exact .of_invalid rfl fun most unworded =>
        ⟨_, mem_args_of_name? given, Store.exists_of_not_shown unworded⟩
  | notDumped given refused =>
      refine .of_invalid rfl fun most unworded => ?_
      obtain ⟨n, contains, long⟩ := Store.exists_of_tooLong?_dump refused unworded
      exact ⟨_, mem_args_of_value? given contains, n, contains, long⟩

/-- Nothing is wrong with what a call is given that makes members, and they are stored. -/
theorem Outcome.stored {call : MemberCall} (making : call.MakesMembers) {answer : Value}
    {after : Store} (outcome : call.Outcome h store (.ok answer after)) :
    (∀ fault, ¬call.Refused store fault) ∧ call.Stored h store answer after := by
  cases outcome with
  | filled gone fills =>
      cases making
      exact ⟨fun _ => not_refused_of_fills gone fills,
        .constants gone fun _ _ _ _ split other => fills.kept split other⟩
  | addedConstant adds makes =>
      refine ⟨fun _ => not_refused nofun ?_ ?_, .constant adds makes⟩
      · rintro _ ⟨⟩
        exact Value.isIdentifier_of_name makes.name
      · rintro _ ⟨⟩
        exact makes.dump_ne_error
  | addedProperty adds makes =>
      refine ⟨fun _ => not_refused nofun ?_ ?_, .property adds makes⟩
      · rintro _ ⟨⟩
        exact Value.isIdentifier_of_name makes.name
      · rintro _ ⟨⟩
        exact makes.dump_ne_error
  | addedMethod adds makes =>
      refine ⟨fun _ => not_refused nofun ?_ nofun, .method adds makes⟩
      rintro _ ⟨⟩
      exact Value.isIdentifier_of_name makes.name

end MemberCall

/-- A call that makes members is refused for what is wrong with what it is given, and never for what
a member reports of its fields: it meets an error of the model's own, unless it is given something
that cannot be gone through, or an integer that is too long for a text. When nothing is wrong, the
members that it makes pass their own checks and are kept under the names and with the values that
were given, of several constants of one name the last. -/
theorem Session.Reachable.prevalidates {session : Session} (reachable : session.Reachable)
    {h : Handle .classType} (made : session.store.classes.Has h) {call : MemberCall}
    (making : call.MakesMembers) :
    match (call.ask h).run session.store with
    | .error fault after => call.Refused session.store fault ∧ (∀ errors, fault ≠ .fields errors) ∧
        call.Raises session.store (after.errorType fault)
    | .ok answer after => (∀ fault, ¬call.Refused session.store fault) ∧
        call.Stored h session.store answer after := by
  have outcome := call.outcome made
  cases ran : (call.ask h).run session.store with
  | error fault after =>
      rw [ran] at outcome
      have refused := outcome.refused reachable.commented making
      exact ⟨refused, refused.ne_fields, outcome.raises reachable.commented making⟩
  | ok answer after =>
      rw [ran] at outcome
      exact outcome.stored making

namespace Session

/-- A session with a class and two dictionaries that it was given: one of a list and a constant, and
one of a list that holds itself. -/
def assorted : Session :=
  start.after [⟨.newClass (.atom (.word (.text "Shop"))) none, some "shop", .prompt⟩,
    ⟨.newMember .constant [("name", .atom (.word (.text "LIMIT")))], some "limit", .prompt⟩,
    ⟨.ask "shop" (some .setConstants) [.dict
      [(.atom (.word (.text "OPENS")), .list [.atom (.int 8), .atom (.int 30)]),
        (.atom (.int 1), .bound "limit")]], none, .prompt⟩,
    ⟨.ask "shop" (some .setConstants) [.dict
      [(.atom (.word (.text "OPENS")), .namedList "loop" [.named "loop"])]], none, .prompt⟩]

set_option maxRecDepth 2000 in
/-- A list is made into a constant, and one that holds itself is refused in front of it. -/
theorem prevalidates_assorted :
    (∃ after, (MemberCall.set .constant (.node ⟨1⟩)).Stored ⟨0⟩ assorted.store (.classType ⟨0⟩)
      after) ∧
    (MemberCall.set .constant (.node ⟨3⟩)).Refused assorted.store (.notDumpable .tooDeep) := by
  have reachable : assorted.Reachable := Reachable.after .start rfl
  have size : assorted.store.classes.size = 1 := by with_unfolding_all rfl
  have made : assorted.store.classes.Has ⟨0⟩ := Nat.lt_of_lt_of_eq Nat.zero_lt_one size.symm
  have first := @Reachable.prevalidates _ reachable _ made (.set .constant (.node ⟨1⟩)) rfl
  have second := @Reachable.prevalidates _ reachable _ made (.set .constant (.node ⟨3⟩)) rfl
  obtain ⟨after, taken⟩ : ∃ after, ((MemberCall.set .constant (.node ⟨1⟩)).ask ⟨0⟩).run
      assorted.store = .ok (.classType ⟨0⟩) after := ⟨_, by with_unfolding_all rfl⟩
  have refused : ((MemberCall.set .constant (.node ⟨3⟩)).ask ⟨0⟩).run assorted.store =
      .error (.notDumpable .tooDeep) assorted.store := by with_unfolding_all rfl
  rw [taken] at first
  rw [refused] at second
  exact ⟨⟨after, first.2⟩, second.1⟩

/-- A session with a class and a constant `A` of 2, and with the dictionary of the two that the
class was given: 1 under `A` and the constant under `B`. -/
def doubled : Session :=
  start.after [⟨.newClass (.atom (.word (.text "Shop"))) none, some "shop", .prompt⟩,
    ⟨.newMember .constant [("name", .atom (.word (.text "A"))), ("value", .atom (.int 2))],
      some "two", .prompt⟩,
    ⟨.ask "shop" (some .setConstants) [.dict [(.atom (.word (.text "A")), .atom (.int 1)),
      (.atom (.word (.text "B")), .bound "two")]], none, .prompt⟩]

/-- A constant is made of the first entry and then not kept, since the second entry is a constant of
the same name. -/
theorem later_constant_replaces :
    (((MemberCall.set .constant (.node ⟨0⟩)).ask ⟨0⟩).run doubled.store =
        .ok (.classType ⟨0⟩) (((MemberCall.set .constant (.node ⟨0⟩)).ask ⟨0⟩).left doubled.store) ∧
      (((MemberCall.set .constant (.node ⟨0⟩)).ask ⟨0⟩).left doubled.store).held
        (.constants ⟨0⟩) = [("A", .constant ⟨0⟩)]) ∧
    ¬∀ session : Session, session.Reachable → ∀ h, session.store.classes.Has h →
      ∀ (members : Value) (entries : List (Option Value × Value)) (between after : Store),
        (Op.keyedItems members).run session.store = .ok entries between →
        ((MemberCall.set .constant members).ask h).run session.store = .ok (.classType h) after →
        ∀ name value, (some (.text name), value) ∈ entries → value.sort? ≠ some .constant →
          ∃ c, (name, .constant c) ∈ after.held (.constants h) ∧
            session.store.nodes.literal? value = .ok (after.constants.get c).value := by
  have ran : ((MemberCall.set .constant (.node ⟨0⟩)).ask ⟨0⟩).run doubled.store =
      .ok (.classType ⟨0⟩)
        (((MemberCall.set .constant (.node ⟨0⟩)).ask ⟨0⟩).left doubled.store) := by
    with_unfolding_all rfl
  have held : (((MemberCall.set .constant (.node ⟨0⟩)).ask ⟨0⟩).left doubled.store).held
      (.constants ⟨0⟩) = [("A", .constant ⟨0⟩)] := by
    with_unfolding_all rfl
  refine ⟨⟨ran, held⟩, fun kept => ?_⟩
  have size : doubled.store.classes.size = 1 := by with_unfolding_all rfl
  have gone : (Op.keyedItems (.node ⟨0⟩)).run doubled.store = .ok
      [(some (.text "A"), .atom (.int 1)), (some (.text "B"), .constant ⟨0⟩)] doubled.store := by
    with_unfolding_all rfl
  obtain ⟨c, member, spelled⟩ := kept doubled (.after .start rfl) ⟨0⟩
    (Nat.lt_of_lt_of_eq Nat.zero_lt_one size.symm) _ _ _ _ gone ran "A" _ (.head _) nofun
  rw [held] at member
  cases List.mem_singleton.1 member
  have two : ((((MemberCall.set .constant (.node ⟨0⟩)).ask ⟨0⟩).left doubled.store).constants.get
      ⟨0⟩).value.literal = .atom (.int 2) := by
    with_unfolding_all rfl
  have one : doubled.store.nodes.literal? (.atom (.int 1)) =
      .ok ⟨.atom (.int 1), by decide, by decide +kernel⟩ := by
    with_unfolding_all rfl
  rw [one] at spelled
  injection spelled with same
  rw [← same] at two
  cases two

end Session

end PhpDecl
