import PhpDecl.Proofs.Tidiness.Rules

/-!
# Operations on values and members keep stores tidy

Values come from containers and maps, from the notes of members and from the members themselves,
where they exist. An assignment keeps what is watched in order unless it is one of a name, or of
parameters to the method whose parameters are watched.
-/

namespace PhpDecl

namespace Value

theorem leadsOn_optionalText (text : Option String) : (optionalText text).leadsOn = false := by
  cases text <;> rfl

end Value

namespace Store.Tidy

variable {watched : Watch}

mutual

/-- A literal that is put into the graph leads to nothing but new containers. -/
theorem embed {store : Store} (tidy : store.Tidy watched) : ∀ literal : Literal,
    let after : Store := { store with nodes := (store.nodes.embed literal).1 }
    (after.Tidy watched ∧ store.Within after) ∧ after.Has watched (store.nodes.embed literal).2
  | .atom _ => ⟨⟨tidy, .refl store⟩, has_of_bare rfl⟩
  | .list items => by
      obtain ⟨⟨left, first⟩, values⟩ := tidy.embedItems items
      obtain ⟨⟨added, second⟩, new⟩ := left.addNode (.list _) values
      exact ⟨⟨added, first.trans second⟩, new⟩
  | .tuple items => by
      obtain ⟨⟨left, first⟩, values⟩ := tidy.embedItems items
      obtain ⟨⟨added, second⟩, new⟩ := left.addNode (.tuple _) values
      exact ⟨⟨added, first.trans second⟩, new⟩
  | .dict entries => by
      obtain ⟨⟨left, first⟩, values⟩ := tidy.embedEntries entries
      obtain ⟨⟨added, second⟩, new⟩ := left.addNode (.dict _) values
      exact ⟨⟨added, first.trans second⟩, new⟩

theorem embedItems {store : Store} (tidy : store.Tidy watched) : ∀ items : List Literal,
    let after : Store := { store with nodes := (store.nodes.embedItems items).1 }
    (after.Tidy watched ∧ store.Within after) ∧
      ∀ value ∈ (store.nodes.embedItems items).2, after.Has watched value
  | [] => ⟨⟨tidy, .refl store⟩, fun _ none => by cases none⟩
  | item :: rest => by
      obtain ⟨⟨left, first⟩, new⟩ := tidy.embed item
      obtain ⟨⟨last, second⟩, values⟩ := left.embedItems rest
      exact ⟨⟨last, first.trans second⟩, List.forall_mem_cons.2 ⟨new.mono second, values⟩⟩

theorem embedEntries {store : Store} (tidy : store.Tidy watched) :
    ∀ entries : List (Literal × Literal),
    let after : Store := { store with nodes := (store.nodes.embedEntries entries).1 }
    (after.Tidy watched ∧ store.Within after) ∧
      ∀ value ∈ Entries.parts (store.nodes.embedEntries entries).2, after.Has watched value
  | [] => ⟨⟨tidy, .refl store⟩, fun _ none => by cases none⟩
  | (key, item) :: rest => by
      obtain ⟨⟨between, first⟩, newKey⟩ := tidy.embed key
      obtain ⟨⟨left, second⟩, newItem⟩ := between.embed item
      obtain ⟨⟨last, third⟩, values⟩ := left.embedEntries rest
      refine ⟨⟨last, (first.trans second).trans third⟩, List.forall_mem_cons.2
        ⟨newKey.mono (second.trans third), List.forall_mem_cons.2 ⟨newItem.mono third, values⟩⟩⟩

end

end Store.Tidy

/-! ## Parameters that are read -/

namespace Given

/-- A value that is given is one of those that are listed. -/
theorem mem_of_ofPairs {names : List String} {values : List Value} {field : Field} {value : Value}
    (given : ofPairs (names.zip values) field = some value) : value ∈ values := by
  obtain ⟨pair, found, rfl⟩ := Option.map_eq_some_iff.1 given
  exact (List.of_mem_zip (List.mem_reverse.1 (List.mem_of_find?_eq_some found))).2

end Given

namespace Store.Sound

variable {watched : Watch} {store : Store} (sound : store.Sound watched)

include sound

/-- The parameters that are there already come from a dictionary. -/
theorem has_of_readAll {value : Value} {parameters : OrderedMap String (Draft .parameter Parameter)}
    (read : Parameter.readAll store.nodes value = .ok parameters)
    (given : store.Has watched value) (h : Handle .parameter)
    (member : .existing h ∈ parameters.values) : store.Has watched (.parameter h) := by
  unfold Parameter.readAll at read
  split at read
  next node =>
    split at read
    next entries content =>
      cases drafts : Parameter.readEntries store.nodes entries with
      | error errors =>
          rw [drafts] at read
          cases read
      | ok drafts' =>
          rw [drafts] at read
          cases read
          obtain ⟨entry, inside, same⟩ := List.mem_map.1 member
          rw [OrderedMap.entries_ofList] at inside
          obtain ⟨written, there, held, -⟩ := Entries.of_mem_ofList _ inside
          refine (sound.nodes node _ ?_).has given
          rw [content]
          exact Parameter.mem_parts_of_readEntries drafts
            (List.mem_map.2 ⟨written, there, held.symm.trans same⟩)
    next => cases read
  next => cases read

/-- An assignment brings in no parameters but those that are given. -/
theorem mayKeep_of_assign {a b : Method (Draft .parameter Parameter)} {field : Field}
    {value holder : Value} (assigned : a.assign store.nodes field value = .ok b)
    (given : field = .parameters → store.Has watched value)
    (exist : ∀ h, .existing h ∈ a.parameters.values → store.MayKeep watched holder (.parameter h))
    (h : Handle .parameter) (member : .existing h ∈ b.parameters.values) :
    store.MayKeep watched holder (.parameter h) := by
  obtain kept | ⟨isParameters, read⟩ := Method.parameters_of_assign assigned
  · exact exist h (kept ▸ member)
  · exact (sound.has_of_readAll read (given isParameters) h member).mayKeep

/-- The parameters of a method that is there. -/
theorem mayKeep_of_drafted (h : Handle .method) (parameter : Handle .parameter)
    (member : .existing parameter ∈ ((store.methods.get h).mapParameters
      (.existing : Handle .parameter → Draft .parameter Parameter)).parameters.values) :
    store.MayKeep watched (.method h) (.parameter parameter) := by
  simp only [Method.mapParameters, OrderedMap.values_mapValues, List.mem_map] at member
  obtain ⟨_, inside, same⟩ := member
  cases same
  exact sound.methods h _ inside

theorem has_of_parameterDict {h : Handle .method} (held : store.Has watched (.method h)) :
    ∀ value ∈ (Op.parameterDict (store.methods.get h)).parts, store.Has watched value :=
  Entries.forall_parts_map Value.text Value.parameter (fun _ => has_of_bare rfl) fun entry kept =>
    (sound.methods h entry.2 (List.mem_map.2 ⟨entry, kept, rfl⟩)).has held

/-- A method is made with no parameters but those that are given. -/
theorem mayKeep_of_build {given : Given} {holder : Value}
    {method : Method (Draft .parameter Parameter)}
    (built : Method.build store.nodes given = .ok method)
    (values : ∀ value, given .parameters = some value → store.Has watched value) :
    ∀ h, .existing h ∈ method.parameters.values → store.MayKeep watched holder (.parameter h) := by
  intro h member
  cases offer : given .parameters with
  | none =>
      rw [Method.parameters_of_build built offer] at member
      cases member
  | some value =>
      exact (sound.has_of_readAll (Method.readAll_of_build built offer) (values value offer) h
        member).mayKeep

end Store.Sound

namespace Op.Careful

open Store

variable {watched : Watch} {known : List Value}

/-! ## Values -/

theorem newNode (node : Node) : Careful watched node.parts (newNode node) ([·]) :=
  get fun _ tidy exist =>
    have ⟨⟨added, within⟩, new⟩ := tidy.addNode node exist
    .set within (.value added new)

theorem newNodeOf {node : Node}
    (exist : ∀ value ∈ node.parts, value ∈ known ∨ value.leadsOn = false) :
    Careful watched known (Op.newNode node) ([·]) :=
  fun store tidy given => newNode node store tidy fun value member =>
    (exist value member).elim (given value) has_of_bare

theorem embed (literal : Literal) : Careful watched known (embed literal) ([·]) :=
  get fun _ tidy _ =>
    have ⟨⟨left, within⟩, new⟩ := tidy.embed literal
    .set within (.value left new)

theorem node? {value : Value} (given : value ∈ known) :
    Careful watched known (node? value) (·.elim [] Node.parts) := by
  cases value with
  | node h =>
      exact get fun store tidy exist => .pure tidy fun part member =>
        (tidy.nodes h part member).has (exist _ given)
  | _ => exact pure (List.nil_subset _)

/-! ## Members -/

theorem newMember (type : MemberType) (given : Given)
    (values : ∀ value, given .parameters = some value → value ∈ known)
    (bare : ∀ h, .parameters h ∈ watched.collection → type = .method → given .parameters = none) :
    Careful watched known (newMember type given) ([·]) := by
  refine get fun store tidy exist => ?_
  cases type with
  | constant =>
      refine .ofFields tidy fun constant _ => ?_
      obtain ⟨added, within⟩ := tidy.addConstant constant
      exact .set within (.value added (tidy.named_addConstant constant).1)
  | property =>
      refine .ofFields tidy fun property _ => ?_
      obtain ⟨added, within⟩ := tidy.addProperty property
      exact .set within (.value added (tidy.named_addProperty property).1)
  | parameter =>
      refine .ofFields tidy fun parameter _ => ?_
      obtain ⟨added, within⟩ := tidy.addParameter parameter
      exact .set within (.value added (tidy.named_addParameter parameter).1)
  | method =>
      refine .ofFields tidy fun method built => ?_
      obtain ⟨settled, first, kept⟩ := tidy.settleMethod fun h =>
        tidy.mayKeep_of_build built (fun value offered => exist value (values value offered)) h
      obtain ⟨added, second⟩ := settled.addMethod _ kept fun watch entry member => by
        have none := Method.parameters_of_build built (bare _ watch rfl)
        simp [Store.settleMethod, none, OrderedMap.mapAccum, OrderedMap.empty,
          Entries.mapAccum] at member
      exact .set (first.trans second) (.value added (settled.named_addMethod _).1)

/-- An assignment keeps what is watched in order unless it is one of a name, or of the parameters
that are watched. -/
theorem assign (target : Value) {field : Field} {value : Value}
    (given : field = .parameters → value ∈ known)
    (named : watched.collection ≠ none → field ≠ .name)
    (placed : ∀ h, .parameters h ∈ watched.collection → field = .parameters → target ≠ .method h) :
    Careful watched known (assign target field value) fun _ => [] := by
  cases target with
  | constant h =>
      refine get fun store tidy _ => .ofFields tidy fun constant assigned => ?_
      exact .put (tidy.setConstant fun watch => Constant.name_of_assign assigned (named watch))
  | property h =>
      refine get fun store tidy _ => .ofFields tidy fun property assigned => ?_
      exact .put (tidy.setProperty fun watch => Property.name_of_assign assigned (named watch))
  | parameter h =>
      refine get fun store tidy _ => .ofFields tidy fun parameter assigned => ?_
      exact .put (tidy.setParameter fun watch => Parameter.name_of_assign assigned (named watch))
  | method h =>
      intro store tidy exist
      unfold Gives Ends
      rw [run_assign_method]
      cases assigned : ((store.methods.get h).mapParameters .existing).assign store.nodes field
          value with
      | error errors => exact ⟨tidy, .refl store⟩
      | ok method =>
          obtain ⟨settled, first, kept⟩ := tidy.settleMethod (tidy.mayKeep_of_assign assigned
            (fun isParameters => exist value (given isParameters)) (tidy.mayKeep_of_drafted h))
          have left := settled.setMethod h _
            (fun watch => Method.name_of_assign assigned (named watch)) kept
            fun watch entry member => .inl (by
              obtain kept | ⟨isParameters, -⟩ := Method.parameters_of_assign assigned
              · rwa [store.parameters_settleMethod kept] at member
              · exact absurd rfl (placed h watch isParameters))
          exact ⟨left.1, first.trans left.2, fun _ none => by cases none⟩
  | _ => exact get fun store tidy _ => .throw tidy _

theorem annotate (target : Value) (label : String) (value : Value) :
    Careful watched [target, value] (annotate target label value) fun _ => [] := by
  have noted {target : Value} (member : target.memberType? ≠ none) :
      Careful watched [target, value]
      (MonadState.modifyGet fun store : Store => (PUnit.unit, { store with
        notes := Entries.upsert (fun a b => decide (a = b)) (target, label) value store.notes }))
      fun _ => [] := by
    refine fun store tidy exist => .put (tidy.withNotes fun note inside => ?_)
    refine (Entries.of_mem_upsert inside).imp_right fun ⟨same, key⟩ => ?_
    obtain rfl : note = ((target, label), value) :=
      Prod.ext (key.elim id of_decide_eq_true) same
    exact ⟨member, (exist target (.head _)).made, (exist value (.tail _ (.head _))).mayKeep⟩
  cases target with
  | constant h | property h | parameter h | method h => exact noted (Option.some_ne_none _)
  | _ => exact throw _

theorem noteOf {target : Value} (given : target ∈ known) (label : String) :
    Careful watched known (noteOf target label) Option.toList := by
  refine get fun store tidy exist => .pure tidy fun value found => ?_
  obtain ⟨note, member, rfl, key⟩ := Entries.mem_of_find? (Option.mem_toList.1 found)
  have kept := (tidy.notes note member).mayKeep
  rw [of_decide_eq_true key] at kept
  exact kept.has (exist target given)

theorem assignNamed (target : Value) {label : String} (value : Value)
    (named : watched.collection ≠ none → label ≠ "name")
    (placed : ∀ h, .parameters h ∈ watched.collection → label = "parameters" →
      target ≠ .method h) :
    Careful watched [target, value] (assignNamed target label value) fun _ => [] := by
  unfold Op.assignNamed
  split
  · exact annotate target label value
  · split
    next field found =>
      have labelled : field.label = label := by simpa using List.find?_some found
      refine assign target (fun _ => .tail _ (.head _)) (fun watch isName => named watch ?_)
        fun h watch isParameters => placed h watch ?_
      · rw [← labelled, isName]
        rfl
      · rw [← labelled, isParameters]
        rfl
    next => exact throw _

/-- An assignment of a field that no collection depends on. -/
theorem assignOther (target : Value) {field : Field} (value : Value) (notName : field ≠ .name)
    (notParameters : field ≠ .parameters) :
    Careful watched known (Op.assign target field value) fun _ => [] :=
  assign target (fun isParameters => absurd isParameters notParameters) (fun _ => notName)
    fun _ _ isParameters => absurd isParameters notParameters

theorem addComment (target line : Value) :
    Careful watched known (addComment target line) fun _ => [] :=
  read (fun _ => Keeps.commentOf target) fun _ => read (fun _ => Keeps.addedText line) fun _ =>
    assignOther target _ (by simp) (by simp)

theorem addBody (h : Handle .method) (code : Value) :
    Careful watched known (addBody h code) fun _ => [] :=
  peek fun _ => read (fun _ => Keeps.addedText code) fun _ =>
    assignOther (.method h) _ (by simp) (by simp)

theorem setDefault (target value : Value) :
    Careful watched known (setDefault target value) fun _ => [] :=
  bind (assignOther target value (by simp) (by simp)) fun _ =>
    assignOther target _ (by simp) (by simp)

theorem setReturnType (target type nullable : Value) :
    Careful watched known (setReturnType target type nullable) fun _ => [] :=
  bind (assignOther target type (by simp) (by simp)) fun _ =>
    assignOther target nullable (by simp) (by simp)

/-- A new parameter comes to a method under its name. -/
theorem addParameter (h : Handle .method) (name : Value) (default : Option Value) :
    Careful watched known (addParameter h name default) ([·]) := by
  refine get fun store tidy _ => .ofFields tidy fun parameter _ => ?_
  obtain ⟨added, first⟩ := tidy.addParameter parameter
  obtain ⟨last, named⟩ := tidy.named_addParameter parameter
  have left := added.setMethod h
    { store.methods.get h with
      parameters := (store.methods.get h).parameters.upsert parameter.name.text
        store.parameters.next }
    (fun _ => rfl)
    (fun other member => by
      obtain ⟨entry, inside, rfl⟩ := List.mem_map.1 member
      obtain old | ⟨new, -⟩ := Entries.of_mem_upsert inside
      · exact added.methods h _ (List.mem_map.2 ⟨entry, old, rfl⟩)
      · exact new ▸ last.mayKeep)
    (fun _ entry member => by
      refine (Entries.of_mem_upsert member).imp_right fun ⟨new, key⟩ => ?_
      rw [new, key.elim id eq_of_beq]
      exact named)
  exact .set (first.trans left.2) (.value left.1 (last.mono left.2))

/-! ## Fields and items -/

theorem fieldOf {target : Value} (given : target ∈ known) (field : Field) :
    Careful watched known (fieldOf target field) Option.toList := by
  refine get fun store tidy exist => ?_
  have embedded (literal : Literal) : Gives watched store
      (do return some (← Op.embed literal)) Option.toList :=
    (embed literal store tidy exist).bind fun value _ tidy _ has => .some tidy (has value (.head _))
  have text (text : Option String) :
      Gives watched store (Pure.pure (some (.optionalText text))) Option.toList :=
    .some tidy (has_of_bare (Value.leadsOn_optionalText text))
  cases target with
  | constant h =>
      cases field with
      | value => exact embedded _
      | name => exact .some tidy (has_of_bare rfl)
      | comment | visibility => exact text _
      | _ => exact .none tidy
  | property h =>
      cases field with
      | value => exact embedded _
      | name | static => exact .some tidy (has_of_bare rfl)
      | comment | visibility => exact text _
      | _ => exact .none tidy
  | parameter h =>
      cases field with
      | defaultValue => exact embedded _
      | name | nullable | reference | hasDefaultValue => exact .some tidy (has_of_bare rfl)
      | typeHint => exact text _
      | _ => exact .none tidy
  | method h =>
      cases field with
      | parameters =>
          exact (newNode _ store tidy (tidy.has_of_parameterDict (exist _ given))).bind
            fun value _ tidy _ has => .some tidy (has value (.head _))
      | name | static | final | abstract | returnNullable | returnReference | variadic =>
          exact .some tidy (has_of_bare rfl)
      | comment | body | visibility | returnType => exact text _
      | _ => exact .none tidy
  | _ => exact .none tidy

theorem fieldPairs {target : Value} (given : target ∈ known) (fields : List Field) :
    Careful watched known (fieldPairs target fields) id := by
  refine bind (show Careful watched known _ fun pairs : List (List Value) => pairs.flatMap id from
    mapM (fun field => bind (fieldOf given field) fun value => ?_) fields) fun pairs =>
      pure (by simp)
  cases value with
  | none => exact pure (List.nil_subset _)
  | some value =>
      refine bind (newNodeOf fun part member => ?_) fun node => pure (by simp)
      obtain rfl | member := List.mem_cons.1 member
      · exact .inr rfl
      · exact .inl (List.mem_append_right _ member)

theorem items {value : Value} (given : value ∈ known) : Careful watched known (items value) id := by
  refine get fun store tidy exist => ?_
  have held := exist value given
  have pairs (fields : List Field) : Gives watched store (Op.fieldPairs value fields) id :=
    fieldPairs given fields store tidy exist
  cases value with
  | node h =>
      have kept := tidy.nodes h
      cases content : store.nodes.get h with
      | dict entries =>
          simp only [content] at kept ⊢
          refine .pure tidy fun value member => ?_
          obtain ⟨entry, inside, rfl⟩ := List.mem_map.1 member
          exact (kept _ (Entries.fst_mem_parts inside)).has held
      | _ =>
          simp only [content] at kept ⊢
          exact .pure tidy fun value member => (kept value member).has held
  | atom a =>
      cases a with
      | word w =>
          refine .pure tidy fun value member => ?_
          obtain ⟨c, -, rfl⟩ := List.mem_map.1 member
          exact has_of_bare rfl
      | _ => exact .throw tidy _
  | bytes content =>
      refine .pure tidy fun value member => ?_
      obtain ⟨byte, -, rfl⟩ := List.mem_map.1 member
      exact has_of_bare rfl
  | map h =>
      refine .pure tidy fun value member => ?_
      obtain ⟨entry, inside, rfl⟩ := List.mem_map.1 member
      exact (tidy.maps h _ (Entries.snd_mem_parts inside)).has held
  | constant h => exact pairs _
  | property h => exact pairs _
  | parameter h => exact pairs _
  | method h => exact pairs _
  | _ => exact .throw tidy _

end Op.Careful

end PhpDecl
