import PhpDecl.Proofs.Tidiness.Steps

/-!
# Names that stay unique

Members are kept under the names that they have when they come in, and written under the names
that they have now. While every member of a collection stands under its name, the names that are
written are as distinct as the keys are. Only two things take a member away from its name: a name
that is assigned to it, and a mapping that gives it as a parameter under another key. Setting the
collection all at once puts every member back under its name.
-/

namespace PhpDecl

/-- Keys that are labels are read as distinct texts. -/
theorem OrderedMap.nodup_texts {α : Type} (map : OrderedMap Label α) :
    (map.entries.map fun entry => entry.1.word.toText).Nodup := by
  have distinct := map.distinct
  rw [List.pairwise_map] at distinct
  refine List.pairwise_map.2 (distinct.imp fun {a b} differ same => ?_)
  have same : (a.1 == b.1) = true := Word.beq_iff.2 same
  rw [same] at differ
  cases differ

namespace Store

/-- The names that are written for the members of a collection, in order. -/
def namesIn (store : Store) : Collection → List String
  | .constants h => (store.plain h).constants.values.map (·.name.text)
  | .properties h => (store.plain h).properties.values.map (·.name.text)
  | .methods h => (store.plain h).methods.values.map (·.name.text)
  | .parameters h => (store.plainMethod h).parameters.values.map (·.name.text)

variable {store : Store} {collection : Collection}

theorem namesIn_eq_map_held (store : Store) (collection : Collection) :
    store.namesIn collection = (store.held collection).map fun entry => store.nameOf entry.2 := by
  cases collection with
  | parameters h =>
      rw [namesIn, plainMethod, Method.mapParameters, OrderedMap.values_mapValues]
      simp only [held, OrderedMap.values, List.map_map]
      rfl
  | _ h =>
      rw [namesIn, plain, Declaration.map, OrderedMap.values_mapValues]
      simp only [held, OrderedMap.values, List.map_map]
      rfl

/-- No two members of a collection have the same key. -/
theorem nodup_keys (store : Store) (collection : Collection) :
    ((store.held collection).map Prod.fst).Nodup := by
  cases collection with
  | parameters h =>
      simp only [held, List.map_map]
      have distinct := (store.methods.get h).parameters.distinct
      exact (distinct.imp fun differ => by simpa using differ)
  | _ =>
      simp only [held, List.map_map]
      exact OrderedMap.nodup_texts _

/-- Where every member stands under its name, the names are distinct as the keys are. -/
theorem nodup_namesIn_of_inOrder (inOrder : store.InOrder collection) :
    (store.namesIn collection).Nodup := by
  have names : store.namesIn collection = (store.held collection).map Prod.fst := by
    rw [namesIn_eq_map_held]
    exact List.map_congr_left inOrder
  rw [names]
  exact store.nodup_keys collection

end Store

/-- Cutting links to namespaces moves no member and gives none another name. -/
theorem Store.InOrder.release {store : Store} {collection : Collection}
    (inOrder : store.InOrder collection) (values : List Value) :
    (store.release values).InOrder collection := by
  intro entry member
  rw [held_release] at member
  exact inOrder entry member

/-! ## Assignments of names -/

/-- A method that keeps its parameters. -/
theorem Store.held_setMethod {store : Store} {method : Method (Handle .parameter)}
    {h : Handle .method} (kept : method.parameters = (store.methods.get h).parameters)
    (collection : Collection) :
    (store.setMethod h method).held collection = store.held collection := by
  cases collection with
  | parameters other =>
      simp only [held, setMethod]
      rw [Arena.image_get_set (fun method : Method (Handle .parameter) => method.parameters) kept]
  | _ => rfl

namespace Op

/-- The collection holds these members, under these keys. -/
abbrev Holding (collection : Collection) (members : List (String × Value)) : Store → Prop :=
  fun store => store.held collection = members

variable {collection : Collection} {members : List (String × Value)}

instance : Spelled (Holding collection members) :=
  ⟨fun kept => by cases collection <;> exact kept⟩

/-- A name that is assigned moves no member. -/
theorem Keeps.assignName (target value : Value) :
    Keeps (Holding collection members) (Op.assign target .name value) := by
  cases target with
  | constant h =>
      exact get fun _ kept => bind (ofFields _) fun _ => set (by cases collection <;> exact kept)
  | property h =>
      exact get fun _ kept => bind (ofFields _) fun _ => set (by cases collection <;> exact kept)
  | parameter h =>
      exact get fun _ kept => bind (ofFields _) fun _ => set (by cases collection <;> exact kept)
  | method h =>
      intro store kept
      rw [run_assign_method]
      cases assigned : ((store.methods.get h).mapParameters .existing).assign store.nodes .name
          value with
      | error errors => exact kept
      | ok method =>
          obtain parameters | ⟨isParameters, -⟩ := Method.parameters_of_assign assigned
          · exact (Store.held_setMethod (store.parameters_settleMethod parameters) collection).trans
              (by cases collection <;> exact kept)
          · cases isParameters
  | _ => exact get fun _ _ => throw _

theorem Keeps.assignNamed_name (target value : Value) :
    Keeps (Holding collection members) (Op.assignNamed target "name" value) := by
  have isField : isNoteName "name" = false := by decide
  have found : Field.ofLabel? "name" = some .name := by decide
  simp only [Op.assignNamed, isField, found]
  exact assignName target value

end Op

/-! ## Members that are set all at once -/

/-- The members of a declaration that a request sets all at once. -/
def Request.refilled? (h : Handle .classType) : Request → Option Collection
  | .setConstants => some (.constants h)
  | .setProperties => some (.properties h)
  | .setMethods => some (.methods h)
  | _ => none

/-- A declaration that sets members all at once keeps them under their names. -/
theorem Op.ends_refill {watched : Watch} {store : Store} {h : Handle .classType}
    {request : Request} {collection : Collection} (tidy : store.Tidy watched)
    (refilled : request.refilled? h = some collection) {args : List Value}
    (given : ∀ value ∈ args, store.Has watched value) :
    Op.Ends watched store (Op.askClass h request args) fun _ after => after.InOrder collection := by
  have self {op : Op Unit}
      (set : Op.Ends watched store op fun _ after => after.InOrder collection) :
      Op.Ends watched store (do op; return Value.classType h) fun _ after =>
        after.InOrder collection :=
    set.bind fun _ after tidy _ inOrder => ⟨tidy, .refl after, inOrder⟩
  unfold Op.askClass
  split
  next => cases request <;> cases refilled <;> exact .throw tidy _
  next arg =>
    have has := given arg (.head _)
    cases request <;> cases refilled
    · exact self (.setConstants tidy h has)
    · exact self (.setProperties tidy h has)
    · exact self (.setMethods tidy h has)
  next => cases request <;> cases refilled <;> exact .throw tidy _
  next => exact .throw tidy _

namespace Session

/-- An assignment of a name leaves every member where it is. -/
theorem held_run_of_assignsName {session : Session} {step : Step}
    (assigns : step.action.assignsName = true) (collection : Collection) :
    (session.run step).1.store.held collection = session.store.held collection := by
  refine holds_run (P := Op.Holding collection (session.store.held collection))
    (fun store values kept => (store.held_release values collection).trans kept) ?_
  cases action : step.action with
  | assign target label value =>
      rw [action] at assigns
      obtain rfl : label = "name" := by simpa [Action.assignsName] using assigns
      exact Op.Keeps.bind (Op.Keeps.findName _ target) (fun object =>
        Op.Keeps.bind (Action.evalArg_keeps _ value) fun value =>
          Op.Keeps.bind (Op.Keeps.assignNamed_name object value) fun _ => Op.Keeps.pure _) _ rfl
  | _ =>
      rw [action] at assigns
      cases assigns

/-! ## Disturbed collections -/

/-- The step gives another name to a member of the collection. -/
def Renames (session : Session) (collection : Collection) (step : Step) : Prop :=
  ∃ entry ∈ session.store.held collection,
    (session.run step).1.store.nameOf entry.2 ≠ session.store.nameOf entry.2

/-- The step gives parameters as a mapping, and one comes to the method under a key that is not its
name. -/
def Misplaces (session : Session) : Collection → Step → Prop
  | .parameters h, step => step.action.givesParameters = true ∧
      ∃ entry ∈ (session.run step).1.store.held (.parameters h),
        entry ∉ session.store.held (.parameters h) ∧
          (session.run step).1.store.nameOf entry.2 ≠ entry.1
  | _, _ => False

/-- The step sets the members of the collection all at once, each under its name: a declaration
sees to that, while a mapping of parameters brings its own keys. -/
def Refills (session : Session) (collection : Collection) (step : Step) : Prop :=
  (∃ result, (session.run step).2.result = .ok result) ∧
    ((∃ target h request args, step.action = .ask target (some request) args ∧
        session.bindings.find? target = some (.classType h) ∧
        request.refilled? h = some collection) ∨
      ∃ target h value, step.action = .assign target "parameters" value ∧
        session.bindings.find? target = some (.method h) ∧ collection = .parameters h ∧
        (session.run step).1.store.InOrder collection)

/-- Since the collection was set all at once, or since there was nothing, no step has given another
name to a member that it held, or put a parameter into it under a key that is not its name. -/
inductive Undisturbed (collection : Collection) : Session → Prop
  | start : Undisturbed collection .start
  | refill {steps : List Step} {step : Step}
      (filled : (Session.start.after steps).Refills collection step) :
      Undisturbed collection ((Session.start.after steps).run step).1
  | run {session : Session} {step : Step} (before : Undisturbed collection session)
      (named : ¬session.Renames collection step) (placed : ¬session.Misplaces collection step) :
      Undisturbed collection (session.run step).1

variable {session : Session} {step : Step} {collection : Collection}

theorem Tidy.unwatched {watched : Watch} (tidy : session.Tidy watched) :
    session.Tidy .nothing :=
  ⟨⟨tidy.store.of_none_lost id, fun _ none => by cases none⟩,
    fun value held => ⟨(tidy.bindings value held).made, id⟩⟩

theorem Tidy.run_unwatched {watched : Watch} (tidy : session.Tidy watched) :
    (session.run step).1.Tidy .nothing :=
  tidy.unwatched.run_of_none rfl step

theorem Tidy.watch (tidy : session.Tidy .nothing) (inOrder : session.store.InOrder collection) :
    session.Tidy (.order collection) :=
  ⟨⟨tidy.store.of_none_lost id, fun _ watch => Option.mem_some.1 watch ▸ inOrder⟩,
    fun value held => ⟨(tidy.bindings value held).made, id⟩⟩

/-- Names that are assigned to other members, and parameters that are given under their names, keep
the collection in order. -/
theorem inOrder_run (tidy : session.Tidy (.order collection))
    (named : ¬session.Renames collection step) (placed : ¬session.Misplaces collection step) :
    (session.run step).1.store.InOrder collection := by
  have inOrder := tidy.store.inOrder collection rfl
  have old {entry : String × Value} (member : entry ∈ session.store.held collection) :
      (session.run step).1.store.nameOf entry.2 = entry.1 := by
    by_contra differs
    exact named ⟨entry, member, fun same => differs (same.trans (inOrder entry member))⟩
  have other (unnamed : step.action.assignsName = false)
      (unplaced : ∀ h, .parameters h ∈ some collection → step.action.givesParameters = false) :
      (session.run step).1.store.InOrder collection :=
    (tidy.run (fun _ => unnamed) unplaced).store.inOrder collection rfl
  cases assigns : step.action.assignsName with
  | true =>
      intro entry member
      rw [held_run_of_assignsName assigns] at member
      exact old member
  | false =>
      cases collection with
      | parameters h =>
          cases gives : step.action.givesParameters with
          | false => exact other assigns fun _ _ => gives
          | true =>
              intro entry member
              by_contra differs
              exact placed ⟨gives, entry, member, fun held => differs (old held), differs⟩
      | _ => exact other assigns fun _ watch => by cases watch

/-- The action of a step that has a declaration set members all at once. -/
theorem ends_refill (tidy : session.Tidy .nothing) {target : String} {h : Handle .classType}
    {request : Request} (bound : session.bindings.find? target = some (.classType h))
    (refilled : request.refilled? h = some collection) (args : List Term) :
    Op.Ends .nothing session.store ((Action.ask target (some request) args).run session.bindings)
      fun _ after => after.InOrder collection := by
  have found : session.bindings.find target = pure (.classType h) := by
    rw [Names.find, bound]
  have answered (values : List Value) :
      Op.ask (.classType h) request values = Op.askClass h request values := by
    cases request <;> cases refilled <;> rfl
  have given := Action.evalArgs_careful (List.Subset.refl _) args session.store tidy.store
    tidy.bindings
  simp only [Action.run, found, pure_bind, answered]
  exact given.bind fun _ _ tidy _ given => Op.ends_refill tidy refilled given

/-- A collection that is set all at once is in order. -/
theorem inOrder_of_refills (tidy : session.Tidy .nothing)
    (filled : session.Refills collection step) :
    (session.run step).1.store.InOrder collection := by
  obtain ⟨⟨result, succeeds⟩, ⟨target, h, request, args, action, bound, refilled⟩ |
    ⟨-, -, -, -, -, -, inOrder⟩⟩ := filled
  · have ends := ends_refill tidy bound refilled args
    rw [← action] at ends
    unfold Session.run at succeeds ⊢
    unfold Op.Ends at ends
    cases ran : (step.action.run session.bindings).run session.store with
    | ok result store =>
        rw [ran] at ends
        exact (Store.InOrder.release ends.2.2 _).release _
    | error fault store =>
        rw [ran] at succeeds
        cases succeeds
  · exact inOrder

theorem Undisturbed.tidy (undisturbed : session.Undisturbed collection) :
    session.Tidy (.order collection) := by
  induction undisturbed with
  | start => exact tidy_start fun _ => id
  | @refill steps step filled =>
      have tidy := tidy_after steps
      exact tidy.run_unwatched.watch (inOrder_of_refills tidy filled)
  | run _ named placed tidy => exact tidy.run_unwatched.watch (inOrder_run tidy named placed)

/-- The names that are written for the members of a collection are pairwise distinct, as long as
the collection is not disturbed. -/
theorem Undisturbed.nodup_namesIn (undisturbed : session.Undisturbed collection) :
    (session.store.namesIn collection).Nodup :=
  Store.nodup_namesIn_of_inOrder (undisturbed.tidy.store.inOrder collection rfl)

/-- A class whose second constant gets the name of the first. -/
def clashing : List Step :=
  [⟨.newClass (.atom (.word (.text "Shop"))) none, some "shop", .prompt⟩,
   ⟨.ask "shop" (some .addConstant) [.atom (.word (.text "A")), .atom (.int 1)], none, .prompt⟩,
   ⟨.ask "shop" (some .addConstant) [.atom (.word (.text "B")), .atom (.int 2)], some "b", .prompt⟩,
   ⟨.assign "b" "name" (.atom (.word (.text "A"))), none, .prompt⟩]

/-- The constants are set all at once. -/
def refilling : Step :=
  ⟨.ask "shop" (some .setConstants) [.dict [(.atom (.word (.text "A")), .atom (.int 1)),
    (.atom (.word (.text "B")), .atom (.int 2))]], none, .prompt⟩

/-- A constant is added. -/
def adding (name : String) : Step :=
  ⟨.ask "shop" (some .addConstant) [.atom (.word (.text name)), .atom (.int 3)], none, .prompt⟩

/-- Constants that are set all at once make up for an assigned name, and adders keep to that. -/
theorem undisturbed_after_refilling :
    (((start.after clashing).run refilling).1.run (adding "C")).1.store.namesIn (.constants ⟨0⟩) =
        ["A", "B", "C"] ∧
      ((((start.after clashing).run refilling).1.run (adding "C")).1.store.namesIn
        (.constants ⟨0⟩)).Nodup := by
  have filled : (start.after clashing).Refills (.constants ⟨0⟩) refilling :=
    ⟨⟨.classType ⟨0⟩, by with_unfolding_all rfl⟩,
      .inl ⟨"shop", ⟨0⟩, .setConstants, _, rfl, by with_unfolding_all rfl, rfl⟩⟩
  have held : ((start.after clashing).run refilling).1.store.held (.constants ⟨0⟩) =
      [("A", .constant ⟨2⟩), ("B", .constant ⟨3⟩)] := by with_unfolding_all rfl
  have named : ¬((start.after clashing).run refilling).1.Renames (.constants ⟨0⟩) (adding "C") := by
    rintro ⟨entry, member, differs⟩
    rw [held, List.mem_pair] at member
    obtain rfl | rfl := member
    · exact differs (Eq.trans (b := "A") (by with_unfolding_all rfl) (by with_unfolding_all rfl))
    · exact differs (Eq.trans (b := "B") (by with_unfolding_all rfl) (by with_unfolding_all rfl))
  exact ⟨by with_unfolding_all rfl,
    Undisturbed.nodup_namesIn (.run (.refill filled) named fun none => by cases none)⟩

/-- A constant gets a name that is still free, which another one is added under. -/
def overtaking : List Step :=
  [⟨.newClass (.atom (.word (.text "Shop"))) none, some "shop", .prompt⟩,
   ⟨.ask "shop" (some .addConstant) [.atom (.word (.text "B")), .atom (.int 2)], some "b", .prompt⟩,
   ⟨.assign "b" "name" (.atom (.word (.text "A"))), none, .prompt⟩, adding "A"]

/-- A parameter is given under two keys, neither of which is its name. -/
def misplacing : List Step :=
  [⟨.newMember .parameter [("name", .atom (.word (.text "x")))], some "x", .prompt⟩,
   ⟨.newMember .method [("name", .atom (.word (.text "run"))),
    ("parameters", .dict [(.atom (.word (.text "a")), .bound "x"),
      (.atom (.word (.text "b")), .bound "x")])], none, .prompt⟩]

/-- An assigned name, even one that was free, and parameters under other keys have the same name
written twice. -/
theorem names_written_twice :
    ((start.after clashing).store.namesIn (.constants ⟨0⟩) = ["A", "A"] ∧
      ((start.after clashing).run ⟨.render "shop" none .standard, none, .prompt⟩).2.result =
        .ok (.text "class Shop\n\x7b\n\tconst A = 1;\n\tconst A = 2;\n\x7d\n") ∧
      (start.after overtaking).store.namesIn (.constants ⟨0⟩) = ["A", "A"] ∧
      (start.after misplacing).store.namesIn (.parameters ⟨0⟩) = ["x", "x"]) ∧
      ¬∀ steps collection, ((start.after steps).store.namesIn collection).Nodup := by
  have clash : (start.after clashing).store.namesIn (.constants ⟨0⟩) = ["A", "A"] := by
    with_unfolding_all rfl
  refine ⟨⟨clash, ?_, ?_, ?_⟩, fun distinct => ?_⟩
  · with_unfolding_all rfl
  · with_unfolding_all rfl
  · with_unfolding_all rfl
  · have twice := distinct clashing (.constants ⟨0⟩)
    rw [clash] at twice
    exact absurd twice (by decide)

end Session

end PhpDecl
