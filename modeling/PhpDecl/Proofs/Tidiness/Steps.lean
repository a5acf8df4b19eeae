import PhpDecl.Proofs.Tidiness.Requests

/-!
# Steps keep stores tidy

A term is made of what variables hold and of new containers, so its value exists. A step keeps
what is watched in order unless it assigns a name, or gives parameters as a mapping.
-/

namespace PhpDecl

theorem Graph.parts_setOf (graph : Graph) (items : List Value) :
    (graph.setOf items).parts ⊆ items := by
  intro part member
  simpa using Entries.mem_keys_ofList part member

theorem Graph.parts_dictOf (graph : Graph) (entries : List (Value × Value)) :
    (graph.dictOf entries).parts ⊆ Entries.parts entries :=
  Entries.parts_ofList_subset entries

theorem Names.mem_of_find? {names : Names} {name : String} {value : Value}
    (found : names.find? name = some value) : value ∈ names.map Prod.snd := by
  rw [find?, List.lookup_eq_some_iff] at found
  obtain ⟨before, after, rfl, -⟩ := found
  simp

/-- The values of the names are among those that are known. -/
def Names.Among (names : Names) (known : List Value) : Prop := names.map Prod.snd ⊆ known

theorem Names.Among.more {names : Names} {known others : List Value} (held : names.Among known) :
    names.Among (known ++ others) := List.subset_append_of_subset_left others held

/-- The evaluation may run in every tidy store in which the values exist that it is given, and the
values of the names that it knows. -/
def Evaluation.Careful {α : Type} (watched : Watch) (known : List Value)
    (evaluation : Evaluation α) (parts : α → List Value) : Prop :=
  ∀ names : Names, Op.Careful watched (known ++ names.map Prod.snd) (evaluation names)
    fun result => parts result.1 ++ result.2.map Prod.snd

theorem Evaluation.Careful.of_subset {α : Type} {watched : Watch}
    {fewer known : List Value} {evaluation : Evaluation α} {parts : α → List Value}
    (careful : evaluation.Careful watched fewer parts) (less : fewer ⊆ known) :
    evaluation.Careful watched known parts := by
  refine fun names => (careful names).of_subset fun value member => ?_
  exact (List.mem_append.1 member).elim (fun given => List.mem_append_left _ (less given))
    (List.mem_append_right _)

theorem Op.Careful.findName {watched : Watch} {known : List Value} {names : Names}
    (held : names.Among known) (name : String) :
    Op.Careful watched known (names.find name) ([·]) := by
  unfold Names.find
  split
  next value found =>
    exact pure (List.cons_subset.2 ⟨held (Names.mem_of_find? found), List.nil_subset _⟩)
  next => exact throw _

namespace Evaluation.Careful

variable {α β : Type} {watched : Watch} {known : List Value} {parts : α → List Value}
  {others : β → List Value}

theorem pure {a : α} (less : parts a ⊆ known) : Evaluation.Careful watched known (pure a) parts :=
  fun _ => Op.Careful.pure (List.append_subset.2
    ⟨List.subset_append_of_subset_left _ less, List.subset_append_right ..⟩)

theorem bind {first : Evaluation α} {next : α → Evaluation β}
    (careful : Evaluation.Careful watched known first parts)
    (second : ∀ a, Evaluation.Careful watched (known ++ parts a) (next a) others) :
    Evaluation.Careful watched known (first >>= next) others := by
  refine fun names => Op.Careful.bind (careful names) fun result => ?_
  refine (second result.1 result.2).of_subset fun value member => ?_
  simp only [List.mem_append] at member ⊢
  tauto

theorem lift {op : Op α} (careful : Op.Careful watched known op parts) :
    Evaluation.Careful watched known (liftM op : Evaluation α) parts := by
  refine fun names => Op.Careful.bind (careful.of_subset (List.subset_append_left ..)) fun a =>
    Op.Careful.pure fun value member => ?_
  simp only [List.mem_append] at member ⊢
  tauto

theorem peek {next : Store → Evaluation β}
    (second : ∀ store, Evaluation.Careful watched known (next store) others) :
    Evaluation.Careful watched known (getThe Store >>= next) others :=
  fun names store => second store names store

theorem read {op : Op α} {next : α → Evaluation β} (kept : ∀ store, Op.Keeps (· = store) op)
    (second : ∀ a, Evaluation.Careful watched known (next a) others) :
    Evaluation.Careful watched known (liftM op >>= next) others :=
  bind (lift (Op.Careful.of_keeps kept)) fun a => (second a).of_subset (List.subset_append_left ..)

/-- A value that leads to nothing. -/
theorem bare {value : Value} (unheld : value.leadsOn = false) :
    Evaluation.Careful watched known (Pure.pure value) ([·]) := by
  refine fun names store tidy given => ⟨tidy, .refl store, fun other member => ?_⟩
  obtain rfl | member := List.mem_cons.1 member
  · exact Store.has_of_bare unheld
  · exact given other (List.mem_append_right _ member)

/-- The container of a name is new, and there from then on. -/
theorem reserve (name : String) (empty : Node) (bare : empty.parts = []) :
    Evaluation.Careful watched known (reserve name empty) fun h => [.node h] := by
  refine fun names store tidy exist => ?_
  obtain ⟨left, new⟩ := tidy.addNode empty (bare ▸ fun _ none => by cases none)
  refine ⟨left.1, left.2, fun value member => ?_⟩
  obtain rfl | member := List.mem_cons.1 member
  · exact new
  · obtain rfl | member := List.mem_cons.1 member
    · exact new
    · exact (exist value (List.mem_append_right _ member)).mono left.2

theorem fill {h : Handle .node} {node : Node} (self : .node h ∈ known)
    (parts : node.parts ⊆ known) :
    Evaluation.Careful watched known (fill h node) ([·]) := by
  refine fun names store tidy exist => ?_
  have left := tidy.setNode h fun value member =>
    exist value (List.mem_append_left _ (parts member))
  refine ⟨left.1, left.2, fun value member => ?_⟩
  obtain rfl | member := List.mem_cons.1 member
  · exact (exist _ (List.mem_append_left _ self)).mono left.2
  · exact (exist value (List.mem_append_right _ member)).mono left.2

theorem newSerial : Evaluation.Careful watched known newSerial fun _ => [] := by
  refine fun names store tidy exist => ?_
  obtain ⟨left, within⟩ : ({ store with tokens := store.tokens + 1 } : Store).Tidy watched ∧
      store.Within { store with tokens := store.tokens + 1 } := tidy.withNames (Nat.le_refl _)
  exact ⟨left, within, fun value member =>
    (exist value (List.mem_append_right _ member)).mono within⟩

theorem ofAtom (a : Atom) : Evaluation.Careful watched known (ofAtom a) ([·]) := by
  cases a with
  | float x =>
      simp only [Evaluation.ofAtom]
      split
      · exact bind newSerial fun _ => bare rfl
      · exact bare rfl
  | _ => exact bare rfl

theorem named (name : String) :
    Evaluation.Careful watched known (do (← getThe Names).find name) ([·]) := by
  intro names
  have found : Evaluation.Careful watched (names.map Prod.snd) (liftM (names.find name)) ([·]) :=
    lift (Op.Careful.findName (List.Subset.refl _) name)
  exact (found names).of_subset (List.append_subset.2
    ⟨List.subset_append_right .., List.subset_append_right ..⟩)

end Evaluation.Careful

namespace Term

open Evaluation.Careful

variable {watched : Watch}

mutual

theorem eval_careful {known : List Value} (bindings : Names) (held : bindings.Among known) :
    ∀ term : Term, Evaluation.Careful watched known (term.eval bindings) ([·])
  | .atom a => ofAtom a
  | .bytes _ => bare rfl
  | .token => bind newSerial fun _ => bare rfl
  | .list items => bind (evalAll_careful bindings held items) fun values =>
      lift ((Op.Careful.newNode (.list values)).of_subset (List.subset_append_right ..))
  | .tuple items => bind (evalAll_careful bindings held items) fun values =>
      lift ((Op.Careful.newNode (.tuple values)).of_subset (List.subset_append_right ..))
  | .set items => bind (evalKeys_careful bindings held items) fun values => peek fun _ =>
      lift ((Op.Careful.newNode _).of_subset
        (List.subset_append_of_subset_right _ (Graph.parts_setOf _ values)))
  | .dict entries => bind (evalEntries_careful bindings held entries) fun entries => peek fun _ =>
      lift ((Op.Careful.newNode _).of_subset
        (List.subset_append_of_subset_right _ (Graph.parts_dictOf _ entries)))
  | .namedList name items => bind (reserve name _ rfl) fun _ =>
      bind (evalAll_careful bindings held.more items) fun _ =>
        fill (List.mem_append_left _ (List.mem_append_right _ (.head _)))
          (List.subset_append_right ..)
  | .namedDict name entries => bind (reserve name _ rfl) fun _ =>
      bind (evalEntries_careful bindings held.more entries) fun entries => peek fun _ =>
        fill (List.mem_append_left _ (List.mem_append_right _ (.head _)))
          (List.subset_append_of_subset_right _ (Graph.parts_dictOf _ entries))
  | .named name => Evaluation.Careful.named name
  | .bound name => lift (Op.Careful.findName held name)

theorem evalAll_careful {known : List Value} (bindings : Names) (held : bindings.Among known) :
    ∀ items : List Term, Evaluation.Careful watched known (evalAll bindings items) id
  | [] => pure (List.nil_subset _)
  | item :: rest => bind (eval_careful bindings held item) fun value =>
      bind (evalAll_careful bindings held.more rest) fun values =>
        pure (by rw [List.append_assoc]; exact List.subset_append_right ..)

theorem evalKeys_careful {known : List Value} (bindings : Names) (held : bindings.Among known) :
    ∀ items : List Term, Evaluation.Careful watched known (evalKeys bindings items) id
  | [] => pure (List.nil_subset _)
  | item :: rest => bind (eval_careful bindings held item) fun value =>
      read (fun _ => Op.Keeps.checkKey value) fun _ =>
        bind (evalKeys_careful bindings held.more rest) fun values =>
          pure (by rw [List.append_assoc]; exact List.subset_append_right ..)

theorem evalEntries_careful {known : List Value} (bindings : Names) (held : bindings.Among known) :
    ∀ entries : List (Term × Term),
      Evaluation.Careful watched known (evalEntries bindings entries) Entries.parts
  | [] => pure (List.nil_subset _)
  | (key, item) :: rest => bind (eval_careful bindings held key) fun key =>
      bind (eval_careful bindings held.more item) fun item =>
        read (fun _ => Op.Keeps.checkKey key) fun _ =>
          bind (evalEntries_careful bindings held.more.more rest) fun entries => pure (by
            rw [List.append_assoc, List.append_assoc]
            exact List.subset_append_right ..)

end

end Term

/-- No value is given for a field that is not named. -/
theorem Given.ofPairs_eq_none {names : List String} {field : Field}
    (absent : names.any (· == field.label) = false) (values : List Value) :
    Given.ofPairs (names.zip values) field = none := by
  rw [ofPairs, Option.map_eq_none_iff, List.find?_eq_none]
  intro pair member
  have named : pair.1 ∈ names := (List.of_mem_zip (List.mem_reverse.1 member)).1
  simpa using List.any_eq_false.1 absent pair.1 named

namespace Action

/-- Whether an action assigns a name. -/
def assignsName : Action → Bool
  | .assign _ label _ => label == "name"
  | _ => false

/-- Whether an action gives parameters as a mapping, under keys of the caller's choice. -/
def givesParameters : Action → Bool
  | .newMember .method given => (given.map Prod.fst).any (· == "parameters")
  | .assign _ label _ => label == "parameters"
  | _ => false

variable {watched : Watch} {known : List Value} {bindings : Names}

theorem evalArgs_careful (held : bindings.Among known) (args : List Term) :
    Op.Careful watched known (evalArgs bindings args) id :=
  ((Term.evalAll_careful bindings held args []).of_subset (List.append_subset.2
    ⟨List.Subset.refl _, List.nil_subset _⟩)).map Prod.fst fun _ => List.subset_append_left ..

theorem evalArg_careful (held : bindings.Among known) (arg : Term) :
    Op.Careful watched known (evalArg bindings arg) ([·]) :=
  ((Term.eval_careful bindings held arg []).of_subset (List.append_subset.2
    ⟨List.Subset.refl _, List.nil_subset _⟩)).map Prod.fst fun _ => List.subset_append_left ..

theorem optional_careful (held : bindings.Among known) (name : Option String) :
    Op.Careful watched known (optional bindings name) ([·]) := by
  cases name with
  | none => exact .bare rfl
  | some name => exact .findName held name

end Action

namespace Op.Careful

variable {watched : Watch} {known : List Value} {bindings : Names}

open PhpDecl.Action

/-- An action may run where its variables hold what exists. It keeps what is watched in order unless
it assigns a name, or gives parameters as a mapping while parameters are watched. -/
theorem run (held : bindings.Among known) {action : Action}
    (named : watched.collection ≠ none → action.assignsName = false)
    (placed : ∀ h, .parameters h ∈ watched.collection → action.givesParameters = false) :
    Careful watched known (action.run bindings) ([·]) := by
  cases action with
  | newScope name => exact bind (newScope name) fun _ => pure (List.subset_append_right ..)
  | newClass name scope =>
      exact bind (evalArg_careful held name) fun name =>
        bind (optional_careful held.more scope) fun scope =>
          (newClass name scope).of_subset (List.subset_append_right ..)
  | newMember type given =>
      refine bind (evalArgs_careful held _) fun values =>
        newMember type _
          (fun value offered => List.mem_append_right _ (Given.mem_of_ofPairs offered))
          fun h watch isMethod => Given.ofPairs_eq_none ?_ values
      subst isMethod
      exact placed h watch
  | newMap kind => exact newMap kind
  | newShortener table => exact newShortener table
  | drop name => exact bare rfl
  | ask target request args =>
      refine bind (findName held target) fun object =>
        bind (evalArgs_careful held.more args) fun values => ?_
      cases request with
      | none => exact throw _
      | some request =>
          have target : object ∈ known ++ [object] ++ values :=
            List.mem_append_left _ (List.mem_append_right _ (.head _))
          exact (ask object request values).of_subset
            (List.cons_subset.2 ⟨target, List.subset_append_right ..⟩)
  | assign target label value =>
      refine bind (findName held target) fun object => bind (evalArg_careful held.more value)
        fun value => bind ((assignNamed object value (fun watch => ?_)
          fun h watch isParameters => ?_).of_subset ?_) fun _ => bare rfl
      · simpa [assignsName] using named watch
      · have absent := placed h watch
        simp [givesParameters, isParameters] at absent
      · exact List.cons_subset.2
          ⟨List.mem_append_left _ (List.mem_append_right _ (.head _)), List.subset_append_right ..⟩
  | read target label =>
      exact bind (findName held target) fun object =>
        readAttribute (List.mem_append_right _ (.head _)) label
  | text target => exact bind (findName held target) fun object => text object
  | inspect target => exact bind (findName held target) fun object => inspect object
  | size target =>
      exact bind (findName held target) fun object =>
        bind (sizeOf (List.mem_append_right _ (.head _))) fun _ => bare rfl
  | truth target =>
      exact bind (findName held target) fun object => peek fun _ => bare rfl
  | items target =>
      exact bind (findName held target) fun object =>
        bind (items (List.mem_append_right _ (.head _))) fun values =>
          (newNode (.list values)).of_subset (List.subset_append_right ..)
  | contains target key =>
      refine bind (findName held target) fun object =>
        bind (evalArg_careful held.more key) fun key => ?_
      cases object with
      | map h => exact read (fun _ => Keeps.hasKey h key) fun _ => bare rfl
      | _ => exact throw _
  | render target shortener layout =>
      exact bind (findName held target) fun object => bind (optional_careful held.more shortener)
        fun shortener => render object shortener layout
  | renderParameters target shortener layout =>
      exact bind (findName held target) fun object => bind (optional_careful held.more shortener)
        fun shortener => renderParameters object shortener layout

end Op.Careful

namespace Store

theorem declaration_releaseLink (store : Store) (values : List Value) (object : ClassObject) :
    (store.releaseLink values object).declaration = object.declaration := by
  unfold releaseLink
  split
  · rfl
  · split <;> rfl

/-- Cutting links to namespaces leaves the declarations. -/
theorem declaration_release (store : Store) (values : List Value) (h : Handle .classType) :
    ((store.release values).classes.get h).declaration = (store.classes.get h).declaration := by
  simp only [release, Arena.get, Array.getElem?_map]
  cases store.classes.slots[h.index]? with
  | none => rfl
  | some object => exact store.declaration_releaseLink values object

theorem held_release (store : Store) (values : List Value) (collection : Collection) :
    (store.release values).held collection = store.held collection := by
  cases collection with
  | parameters h => rfl
  | _ => simp only [held, declaration_release]

/-- A declaration stays in its namespace while the values lead to it. -/
theorem scope_release (store : Store) (values : List Value) (h : Handle .classType) :
    ((store.release values).classes.get h).scope =
      (store.classes.get h).scope.filter (store.leadTo values) := by
  have link (object : ClassObject) : (store.releaseLink values object).scope =
      object.scope.filter (store.leadTo values) := by
    unfold releaseLink
    split
    next none => rw [none]; rfl
    next scope held =>
      rw [held, Option.filter_some]
      split
      · exact held
      · rfl
  simp only [release, Arena.get, Array.getElem?_map]
  cases store.classes.slots[h.index]? with
  | none => rfl
  | some object => exact link object

theorem Made.release {store : Store} {value : Value} (made : store.Made value)
    (values : List Value) : (store.release values).Made value := by
  cases value with
  | classType h => simpa [Made, Store.release, Arena.Has, Arena.size] using made
  | _ => exact made

theorem Has.release {watched : Watch} {store : Store} {value : Value}
    (has : store.Has watched value) (values : List Value) :
    (store.release values).Has watched value := ⟨has.made.release values, has.safe⟩

theorem Tidy.release {watched : Watch} {store : Store} (tidy : store.Tidy watched)
    (values : List Value) : (store.release values).Tidy watched := by
  refine tidy.withClasses (by simp [Arena.size]) (fun h value kept => .inl ?_)
    (fun h scope linked => .inl ?_)
    fun collection _ entry member => .inl (store.held_release values collection ▸ member)
  · rwa [← store.declaration_release values h]
  · have linked : scope ∈ ((store.release values).classes.get h).scope := linked
    rw [scope_release] at linked
    exact (Option.filter_eq_some_iff.1 linked).1

end Store

namespace Session

/-- The store is tidy, and the variables hold what is there. -/
structure Tidy (watched : Watch) (session : Session) : Prop where
  store : session.store.Tidy watched
  bindings : ∀ value ∈ session.bindings.map Prod.snd, session.store.Has watched value

theorem snd_bound_subset (bindings : Names) (step : Step) (result : Value) :
    (bound bindings step result).map Prod.snd ⊆ result :: bindings.map Prod.snd := by
  have filtered (bindings : Names) (p : String × Value → Bool) :
      (bindings.filter p).map Prod.snd ⊆ bindings.map Prod.snd :=
    List.map_subset _ (List.filter_subset_self bindings)
  unfold bound
  split <;> split
  · exact List.subset_cons_of_subset _ (filtered ..)
  · exact List.cons_subset_cons _ (List.Subset.trans (filtered ..) (filtered ..))
  · exact List.subset_cons_of_subset _ (List.Subset.refl _)
  · exact List.cons_subset_cons _ (filtered ..)

section

variable {watched : Watch} {session : Session} {step : Step}

/-- The action of a step leaves a tidy store and a result that is there, when it neither assigns a
name nor, while parameters are watched, gives parameters as a mapping. -/
theorem Tidy.gives (tidy : session.Tidy watched)
    (named : watched.collection ≠ none → step.action.assignsName = false)
    (placed : ∀ h, .parameters h ∈ watched.collection → step.action.givesParameters = false) :
    Op.Gives watched session.store (step.action.run session.bindings) ([·]) :=
  Op.Careful.run (List.Subset.refl _) named placed session.store tidy.store tidy.bindings

/-- Such a step leaves a tidy session. -/
theorem Tidy.run (tidy : session.Tidy watched)
    (named : watched.collection ≠ none → step.action.assignsName = false)
    (placed : ∀ h, .parameters h ∈ watched.collection → step.action.givesParameters = false) :
    (session.run step).1.Tidy watched := by
  have gives := tidy.gives named placed
  unfold Op.Gives Op.Ends at gives
  unfold Session.run
  split at gives
  next result store ran =>
    obtain ⟨left, within, has⟩ := gives
    rw [ran]
    refine ⟨(left.release _).release _, fun value member => ?_⟩
    obtain rfl | old := List.mem_cons.1 (snd_bound_subset _ _ _ member)
    · exact ((has value (.head _)).release _).release _
    · exact (((tidy.bindings value old).mono within).release _).release _
  next fault store ran =>
    rw [ran]
    exact ⟨(gives.1.release _).release _, fun value member =>
      (((tidy.bindings value member).mono gives.2).release _).release _⟩

/-- Where no collection is watched, every step leaves a tidy session. -/
theorem Tidy.run_of_none (tidy : session.Tidy watched) (none : watched.collection = none)
    (step : Step) : (session.run step).1.Tidy watched :=
  tidy.run (fun watch => absurd none watch) fun _ watch => by
    rw [none] at watch
    cases watch

end

/-- Nothing is kept at the start. -/
theorem tidy_start {watched : Watch} (past : ∀ value, ¬watched.lost value) :
    start.Tidy watched where
  store := {
    nodes := fun _ _ none => by cases none
    classes := fun _ value member => by
      have only : value ∈ [Value.bool false, Value.bool false, Value.null] := member
      refine Store.Has.mayKeep (Store.has_of_bare ?_)
      simp only [List.mem_cons, List.not_mem_nil, or_false] at only
      obtain rfl | rfl | rfl := only <;> rfl
    methods := fun _ _ none => by cases none
    maps := fun _ _ none => by cases none
    notes := fun _ none => by cases none
    links := fun _ _ none => by cases none
    past := fun lost => absurd lost (past _)
    inOrder := fun collection _ _ none => by cases collection <;> cases none }
  bindings := fun _ none => by cases none

/-- In every session that steps lead to, everything that is kept was made. -/
theorem tidy_after (steps : List Step) : (start.after steps).Tidy .nothing := by
  have lead {session : Session} (tidy : session.Tidy .nothing) (steps : List Step) :
      (session.after steps).Tidy .nothing := by
    induction steps generalizing session with
    | nil => exact tidy
    | cons step rest ih => exact ih (tidy.run_of_none rfl step)
  exact lead (tidy_start fun _ => id) steps

end Session

end PhpDecl
