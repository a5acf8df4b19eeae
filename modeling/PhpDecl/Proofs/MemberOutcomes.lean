import PhpDecl.Proofs.MemberWrites

/-!
# Answers to calls that write members

What a declaration answers to a call, and what the call leaves, is told in one place
(`MemberCall.outcome`): it is refused for a name, for a value or for the shape of an input, or it
has written to one collection.
-/

namespace PhpDecl

/-- What a declaration answers to a call. -/
inductive MemberCall.Outcome (h : Handle .classType) (store : Store) :
    MemberCall → EStateM.Result Fault Store Value → Prop
  | filled {sort : MemberSort} {members : Value} {entries : List (Option Value × Value)}
      {written : List (String × Option Value)} {between after : Store}
      (gone : (Op.keyedItems members).run store = .ok entries between)
      (fills : Store.Fills h sort entries written between after) :
      Outcome h store (.set sort members) (.ok (.classType h) after)
  | addedConstant {name value : Value} {c : Handle .constant} {after : Store}
      (adds : Store.Adds h .constant name (.constant c) store after)
      (makes : store.nodes.Makes Constant.build Constant.name Constant.value name value
        (after.constants.get c)) :
      Outcome h store (.addConstant name value) (.ok (.constant c) after)
  | addedProperty {name : Value} {value : Option Value} {p : Handle .property} {after : Store}
      (adds : Store.Adds h .property name (.property p) store after)
      (makes : store.nodes.Makes Property.build Property.name Property.value name
        (value.getD .null) (after.properties.get p)) :
      Outcome h store (.addProperty name value) (.ok (.property p) after)
  | addedMethod {name : Value} {m : Handle .method} {after : Store}
      (adds : Store.Adds h .method name (.method m) store after)
      (makes : store.nodes.MakesMethod (store.classes.get h).declaration.kind name
        (after.methods.get m)) :
      Outcome h store (.addMethod name) (.ok (.method m) after)
  | notIterable {sort : MemberSort} {members : Value} {fault : Fault} {between : Store}
      (refused : (Op.keyedItems members).run store = .error fault between) :
      Outcome h store (.set sort members) (.error fault between)
  | notDrafted {members : Value} {entries : List (Option Value × Value)} {between : Store}
      (gone : (Op.keyedItems members).run store = .ok entries between)
      {entry : Option Value × Value} (member : entry ∈ entries) {fault : Fault}
      (drafted : between.Drafted entry (.error fault)) :
      Outcome h store (.set .constant members) (.error (between.refusal fault) between)
  | notListed {sort : MemberSort} {members : Value} {entries : List (Option Value × Value)}
      {between : Store} (gone : (Op.keyedItems members).run store = .ok entries between)
      {expected : ListedMember} (listed : sort.listed? = some expected)
      {entry : Option Value × Value} (member : entry ∈ entries)
      (other : entry.2.sort? ≠ some sort) :
      Outcome h store (.set sort members)
        (.error (.notMember expected (between.typeOf entry.2)) between)
  | notNamed {call : MemberCall} {name : Value} (given : call.name? = some name)
      (malformed : name.isIdentifier = false) :
      Outcome h store call (.error (store.refusal (.invalidName .member name)) store)
  | notDumped {call : MemberCall} {value : Value} (given : call.value? = some value)
      {fault : DumpFault} (refused : store.nodes.dump .standard value = .error fault) :
      Outcome h store call (.error (.notDumpable fault) store)

namespace Op

open Store

variable {store : Store} {h : Handle .classType} {name value : Value}

theorem run_ofExcept_bind {α β : Type} (result : Except Fault α) (next : α → Op β)
    (store : Store) : (ofExcept result >>= next).run store =
      match result with
      | .ok a => (next a).run store
      | .error fault => .error (store.refusal fault) store := by
  cases result <;> rfl

/-- A call that checks a name and then goes on. -/
theorem outcome_of_name {call : MemberCall} (given : call.name? = some name)
    {next : Label → Op Value} (accepted : ∀ label : Label, name = .word label.word →
      MemberCall.Outcome h store call ((next label).run store)) :
    MemberCall.Outcome h store call ((ofExcept name.checkMemberName >>= next).run store) := by
  rw [run_ofExcept_bind]
  obtain ⟨label, named, read⟩ | ⟨malformed, refused⟩ := Value.checkMemberName_cases name
  · rw [read]
    exact accepted label named
  · rw [refused]
    exact .notNamed given malformed

/-- A call that checks a name and a value and then goes on. -/
theorem outcome_of_name_value {call : MemberCall} (named : call.name? = some name)
    (valued : call.value? = some value) {next : Label → ShallowLiteral → Op Value}
    (accepted : ∀ (label : Label) (literal : ShallowLiteral), name = .word label.word →
      store.nodes.literal? value = .ok literal →
        MemberCall.Outcome h store call ((next label literal).run store)) :
    MemberCall.Outcome h store call ((ofExcept name.checkMemberName >>= fun label =>
      ofExcept (value.checkLiteral store.nodes) >>= next label).run store) := by
  refine outcome_of_name named fun label same => ?_
  rw [run_ofExcept_bind, Value.checkLiteral_eq]
  cases dumped : store.nodes.literal? value with
  | ok literal => exact accepted label literal same dumped
  | error fault => exact .notDumped valued (Graph.dump_eq_error_iff.2 dumped)

/-- A call that goes through an input and then goes on with its entries. -/
theorem outcome_of_entries {sort : MemberSort} {members : Value} (made : store.classes.Has h)
    {next : List (Option Value × Value) → Op Value}
    (accepted : ∀ entries between, (keyedItems members).run store = .ok entries between →
      between.classes.Has h →
        MemberCall.Outcome h store (.set sort members) ((next entries).run between)) :
    MemberCall.Outcome h store (.set sort members) ((keyedItems members >>= next).run store) := by
  have kept := Keeps.keyedItems (P := store.GrowsTo) members store (.refl store)
  cases gone : (keyedItems members).run store with
  | error fault between =>
      rw [run_bind_error gone]
      exact .notIterable gone
  | ok entries between =>
      rw [run_bind_ok gone]
      rw [gone] at kept
      obtain ⟨nodes, -, rfl⟩ := kept
      exact accepted entries _ gone made

theorem exists_of_mapM_error {α β : Type} {f : α → Except Fault β} {items : List α} {fault : Fault}
    (refused : items.mapM f = .error fault) : ∃ item ∈ items, f item = .error fault := by
  induction items with
  | nil => cases refused
  | cons first rest ih =>
      rw [List.mapM_cons] at refused
      cases head : f first with
      | error cause =>
          rw [head] at refused
          cases refused
          exact ⟨first, .head _, head⟩
      | ok b =>
          cases tail : rest.mapM f with
          | error cause =>
              rw [head, tail] at refused
              cases refused
              obtain ⟨item, inside, same⟩ := ih tail
              exact ⟨item, .tail _ inside, same⟩
          | ok others =>
              rw [head, tail] at refused
              cases refused

/-- A collection that takes nothing but members is replaced, or there is something else. -/
theorem outcome_list {α : Type} {sort : MemberSort} {expected : ListedMember}
    (listed : sort.listed? = some expected) (list : Store → Value → Except Fault α)
    (wrap : α → Value) (label : Store → α → Label)
    (change : List (Label × α) → SharedDeclaration → SharedDeclaration)
    (accepts : ∀ {store value a}, list store value = .ok a → value = wrap a)
    (refuses : ∀ {store value fault}, list store value = .error fault →
      value.sort? ≠ some sort ∧ fault = .notMember expected (store.typeOf value))
    (sorted : ∀ a, (wrap a).sort? = some sort)
    (named : ∀ store a, store.nameOf (wrap a) = (label store a).word.toText)
    (others : ∀ members d, ∀ other ≠ sort, (change members d).listed other = d.listed other)
    (written : ∀ members d, (change members d).listed sort =
      (OrderedMap.ofList members).entries.map fun entry => (entry.1.word.toText, wrap entry.2))
    (made : store.classes.Has h) (members : Value) :
    MemberCall.Outcome h store (.set sort members) (((do
      let items ← valueItems members
      let store ← get
      let handles ← ofExcept (items.mapM (list store))
      changeClass h (change (handles.map fun a => (label store a, a)))) >>= fun _ =>
        return Value.classType h : Op Value).run store) := by
  simp only [valueItems, bind_assoc, pure_bind]
  refine outcome_of_entries made fun entries between gone has => ?_
  change MemberCall.Outcome h store (.set sort members)
    ((ofExcept ((entries.map Prod.snd).mapM (list between)) >>= fun handles =>
      changeClass h (change (handles.map fun a => (label between a, a))) >>= fun _ =>
        pure (Value.classType h)).run between)
  rw [run_ofExcept_bind]
  cases all : (entries.map Prod.snd).mapM (list between) with
  | error fault =>
      obtain ⟨value, inside, refused⟩ := exists_of_mapM_error all
      obtain ⟨entry, member, rfl⟩ := List.mem_map.1 inside
      obtain ⟨other, rfl⟩ := refuses refused
      exact .notListed gone listed member other
  | ok handles =>
      have taken := Graph.forall₂_of_mapM all
      rw [List.forall₂_map_left_iff] at taken
      exact .filled gone (.of_listed wrap (label between) has
        (taken.imp fun _ _ => accepts) sorted (named between) (others _) (written _))

theorem outcome_setProperties (made : store.classes.Has h) (members : Value) :
    MemberCall.Outcome h store (.set .property members)
      ((setProperties h members >>= fun _ => return Value.classType h : Op Value).run store) := by
  refine outcome_list rfl Store.listedProperty .property
    (fun store p => .ofIdentifier (store.properties.get p).name)
    (fun members d => { d with properties := .ofList members }) eq_of_listedProperty ?_
    (fun _ => rfl) (fun _ _ => rfl) (fun _ d _ => d.listed_with_properties _) (fun _ _ => rfl) made
    members
  intro store value fault refused
  cases value with
  | property p => cases refused
  | _ =>
      cases refused
      exact ⟨nofun, rfl⟩

theorem outcome_setMethods (made : store.classes.Has h) (members : Value) :
    MemberCall.Outcome h store (.set .method members)
      ((setMethods h members >>= fun _ => return Value.classType h : Op Value).run store) := by
  refine outcome_list rfl Store.listedMethod .method
    (fun store m => .ofIdentifier (store.methods.get m).name)
    (fun members d => { d with methods := .ofList members }) eq_of_listedMethod ?_
    (fun _ => rfl) (fun _ _ => rfl) (fun _ d _ => d.listed_with_methods _) (fun _ _ => rfl) made
    members
  intro store value fault refused
  cases value with
  | method m => cases refused
  | _ =>
      cases refused
      exact ⟨nofun, rfl⟩

theorem outcome_setConstants (made : store.classes.Has h) (members : Value) :
    MemberCall.Outcome h store (.set .constant members)
      ((setConstants h members >>= fun _ => return Value.classType h : Op Value).run store) := by
  simp only [setConstants, bind_assoc]
  refine outcome_of_entries made fun entries between gone has => ?_
  change MemberCall.Outcome h store (.set .constant members)
    ((ofExcept (entries.mapM between.constantDraft) >>= fun drafts => _).run between)
  rw [run_ofExcept_bind]
  cases drafted : entries.mapM between.constantDraft with
  | error fault =>
      obtain ⟨entry, member, refused⟩ := exists_of_mapM_error drafted
      exact .notDrafted gone member (refused ▸ between.drafted entry)
  | ok drafts =>
      obtain ⟨written, fills⟩ := Fills.of_drafts has drafted rfl rfl
      exact .filled gone fills

theorem outcome_addConstant (made : store.classes.Has h) (name : Value) (value : Value) :
    MemberCall.Outcome h store (.addConstant name value)
      ((addConstant h name value).run store) := by
  have accepted (label : Label) (literal : ShallowLiteral) (named : name = .word label.word)
      (dumped : store.nodes.literal? value = .ok literal) :
      MemberCall.Outcome h store (.addConstant name value) ((do
        let added := store.addConstant { Constant.named label.toIdentifier with value := literal }
        set (added.1.changeClass h fun d =>
          { d with constants := d.constants.upsert label added.2 })
        return .constant added.2 : Op Value).run store) := by
    subst named
    have holds := Arena.get_push_next store.constants
      { Constant.named label.toIdentifier with value := literal }
    refine .addedConstant (c := store.constants.next)
      (.of_change made rfl rfl (fun _ has => nameOf_addConstant has _)
        (fun d _ => d.listed_with_constants _) rfl (Arena.not_has_next _) ?_
        fun d => OrderedMap.map_upsert_label .constant d.constants label _) ?_
    · exact congrArg (fun constant : Constant => constant.name.text) holds
    · exact (congrArg (store.nodes.Makes Constant.build Constant.name Constant.value _ _)
        holds).mpr (Graph.makes_constant dumped)
  exact outcome_of_name_value rfl rfl accepted

theorem outcome_addProperty (made : store.classes.Has h) (name : Value) (value : Option Value) :
    MemberCall.Outcome h store (.addProperty name value)
      ((addProperty h name (value.getD .null)).run store) := by
  have accepted (label : Label) (literal : ShallowLiteral) (named : name = .word label.word)
      (dumped : store.nodes.literal? (value.getD .null) = .ok literal) :
      MemberCall.Outcome h store (.addProperty name value) ((do
        let added := store.addProperty { Property.named label.toIdentifier with value := literal }
        set (added.1.changeClass h fun d =>
          { d with properties := d.properties.upsert label added.2 })
        return .property added.2 : Op Value).run store) := by
    subst named
    have holds := Arena.get_push_next store.properties
      { Property.named label.toIdentifier with value := literal }
    refine .addedProperty (p := store.properties.next)
      (.of_change made rfl rfl (fun _ has => nameOf_addProperty has _)
        (fun d _ => d.listed_with_properties _) rfl (Arena.not_has_next _) ?_
        fun d => OrderedMap.map_upsert_label .property d.properties label _) ?_
    · exact congrArg (fun property : Property => property.name.text) holds
    · exact (congrArg (store.nodes.Makes Property.build Property.name Property.value _ _)
        holds).mpr (Graph.makes_property dumped)
  exact outcome_of_name_value rfl rfl accepted

theorem outcome_addMethod (made : store.classes.Has h) (name : Value) :
    MemberCall.Outcome h store (.addMethod name) ((addMethod h name).run store) := by
  have accepted (label : Label) (named : name = .word label.word) :
      MemberCall.Outcome h store (.addMethod name) ((do
        let added := store.addMethod
          (methodFor (store.classes.get h).declaration.kind label.toIdentifier)
        set (added.1.changeClass h fun d =>
          { d with methods := d.methods.upsert label added.2 })
        return .method added.2 : Op Value).run store) := by
    subst named
    have makes : store.nodes.MakesMethod _ (.word label.word) _ :=
      Graph.makes_method (store.classes.get h).declaration.kind
    have holds := Arena.get_push_next store.methods
      (methodFor (store.classes.get h).declaration.kind label.toIdentifier)
    refine .addedMethod (m := store.methods.next)
      (.of_change made rfl rfl (fun _ has => nameOf_addMethod has _)
        (fun d _ => d.listed_with_methods _) rfl (Arena.not_has_next _) ?_
        fun d => OrderedMap.map_upsert_label .method d.methods label _) ?_
    · obtain ⟨word, same, named⟩ := makes.name
      cases same
      exact (congrArg (fun method : Method (Handle .parameter) => method.name.text)
        holds).trans named
    · exact (congrArg (store.nodes.MakesMethod _ _) holds).mpr makes
  exact outcome_of_name rfl accepted

end Op

/-- Whatever a declaration is called with, the call does what is told of it. -/
theorem MemberCall.outcome {store : Store} {h : Handle .classType} (made : store.classes.Has h)
    (call : MemberCall) : Outcome h store call ((call.ask h).run store) := by
  cases call with
  | set sort members =>
      cases sort with
      | constant => exact Op.outcome_setConstants made members
      | property => exact Op.outcome_setProperties made members
      | method => exact Op.outcome_setMethods made members
  | addConstant name value => exact Op.outcome_addConstant made name value
  | addProperty name value =>
      cases value with
      | none => exact Op.outcome_addProperty made name none
      | some value => exact Op.outcome_addProperty made name (some value)
  | addMethod name => exact Op.outcome_addMethod made name

end PhpDecl
