import PhpDecl.Proofs.Tidiness.Members

/-!
# Operations on maps and declarations keep stores tidy

A map keeps what it is given. A declaration takes members under the names that they have at that
moment, one by one or all at once, and keeps for its flags and its comment what it is given.
-/

namespace PhpDecl

namespace SharedDeclaration

variable (d : SharedDeclaration)

theorem final_mem_head : d.final ∈ d.head := .head _

theorem abstract_mem_head : d.abstract ∈ d.head := .tail _ (.head _)

theorem comment_mem_head : d.comment ∈ d.head := .tail _ (.tail _ (.head _))

end SharedDeclaration

namespace Label

variable {α : Type}

/-- Members that are listed under their names. -/
theorem of_mem_ofList (nameOf : α → Identifier) (items : List α) :
    ∀ entry ∈ (OrderedMap.ofList (items.map fun a => (ofIdentifier (nameOf a), a))).entries,
      entry.2 ∈ items ∧ (nameOf entry.2).text = entry.1.word.toText := by
  intro entry member
  rw [OrderedMap.entries_ofList] at member
  obtain ⟨written, inside, held, key⟩ := Entries.of_mem_ofList _ member
  obtain ⟨a, there, rfl⟩ := List.mem_map.1 inside
  rw [held]
  exact ⟨there, (key.elim (congrArg (·.word.toText)) toText_eq).symm⟩

theorem of_mem_upsert {map : OrderedMap Label α} {name : Label} {value : α} {entry : Label × α}
    (member : entry ∈ (map.upsert name value).entries) :
    entry ∈ map.entries ∨ entry.2 = value ∧ name.word.toText = entry.1.word.toText :=
  (Entries.of_mem_upsert member).imp_right fun ⟨held, key⟩ =>
    ⟨held, (key.elim (congrArg (·.word.toText)) toText_eq).symm⟩

end Label

namespace Store

variable {store : Store}

theorem eq_of_constantDraft {entry : Option Value × Value} {h : Handle .constant}
    (drafted : store.constantDraft entry = .ok (.existing h)) : entry.2 = .constant h := by
  unfold constantDraft at drafted
  split at drafted
  next =>
    cases drafted
    rfl
  next => cases drafted
  next => cases drafted
  next key value _ _ =>
    cases name : key.checkMemberName with
    | error fault => simp [name, bind, Except.bind] at drafted
    | ok name' =>
        cases literal : value.checkLiteral store.nodes <;>
          simp [name, literal, bind, Except.bind, pure, Except.pure] at drafted

theorem eq_of_listedProperty {value : Value} {h : Handle .property}
    (listed : store.listedProperty value = .ok h) : value = .property h := by
  cases value with
  | property h => cases listed; rfl
  | _ => cases listed

theorem eq_of_listedMethod {value : Value} {h : Handle .method}
    (listed : store.listedMethod value = .ok h) : value = .method h := by
  cases value with
  | method h => cases listed; rfl
  | _ => cases listed

end Store

theorem exists_of_mem_mapM {α β ε : Type} {f : α → Except ε β} {items : List α} {results : List β}
    (all : items.mapM f = .ok results) {b : β} (member : b ∈ results) :
    ∃ a ∈ items, f a = .ok b := Graph.exists_of_mem_right (Graph.forall₂_of_mapM all) member

namespace Op

open Store

theorem leadsOn_typeNameValues {names : List TypeName} {value : Value}
    (member : value ∈ typeNameValues names) : value.leadsOn = false := by
  obtain ⟨name, -, rfl⟩ := List.mem_map.1 member
  rfl

variable {watched : Watch} {known : List Value}

namespace Careful

/-! ## Maps -/

theorem newMap (kind : String) : Careful watched known (newMap kind) ([·]) := by
  refine get fun store tidy _ => .write (tidy.withMaps (by simp) fun h value kept => ?_)
    fun left _ => .value left (tidy.has_new store.maps.not_has_next (store.maps.has_push_next _))
  exact (Arena.of_mem_get_push (fun map : MapObject => Entries.parts map.items) kept).imp_right
    fun ⟨_, new⟩ => by cases new

theorem changeMap (h : Handle .map) {change : List (Value × Value) → List (Value × Value)}
    (given : ∀ items, Entries.parts (change items) ⊆ known ++ Entries.parts items) :
    Careful watched known (changeMap h change) fun _ => [] := by
  refine fun store tidy exist => .put (tidy.withMaps (by simp) fun other value kept => ?_)
  obtain old | ⟨rfl, new⟩ :=
    Arena.of_mem_get_set (fun map : MapObject => Entries.parts map.items) kept
  · exact .inl old
  · exact (List.mem_append.1 (given _ new)).symm.imp_right fun new => (exist value new).mayKeep

theorem upsert (h : Handle .map) (key value : Value) :
    Careful watched [key, value] (upsert h key value) ([·]) :=
  read (fun _ => Keeps.checkKey key) fun _ => get fun store tidy exist =>
    (changeMap h (fun _ => Entries.parts_upsert_subset) store tidy exist).bind
      fun _ _ tidy within _ => .value tidy ((exist value (.tail _ (.head _))).mono within)

theorem find {h : Handle .map} (given : .map h ∈ known) (key : Value) :
    Careful watched known (find h key) ([·]) := by
  refine read (fun _ => Keeps.checkKey key) fun _ => get fun store tidy exist => ?_
  simp only
  split
  next value found =>
    obtain ⟨entry, member, rfl, -⟩ := Entries.mem_of_find? found
    exact .value tidy ((tidy.maps h _ (Entries.snd_mem_parts member)).has (exist _ given))
  next => exact .refuse tidy _

theorem pairAt (position : Nat) {item : Value} (given : item ∈ known) :
    Careful watched known (pairAt position item) fun pair => [pair.1, pair.2] := by
  refine bind (tryCatch (items given) fun _ => throw _) fun parts => ?_
  split
  · exact read (fun _ => Keeps.checkKey _) fun _ => pure (List.subset_append_right ..)
  · exact throw _

theorem pairsFrom (position : Nat) {items : List Value} (given : items ⊆ known) :
    Careful watched known (pairsFrom position items) Entries.parts := by
  induction items generalizing position known with
  | nil => exact pure (List.nil_subset _)
  | cons item rest ih =>
      obtain ⟨first, others⟩ := List.cons_subset.1 given
      refine bind (pairAt position first) fun pair =>
        bind (ih (position + 1) (List.subset_append_of_subset_left _ others)) fun others => pure ?_
      rw [List.append_assoc]
      exact List.subset_append_right ..

theorem entriesOf {value : Value} (given : value ∈ known) :
    Careful watched known (entriesOf value) Entries.parts := by
  refine bind (node? given) fun node => ?_
  split
  · exact pure (List.subset_append_right ..)
  · refine bind (items (List.mem_append_left _ given)) fun parts =>
      bind (pairsFrom 0 (List.subset_append_right ..)) fun pairs =>
        get fun store tidy exist => .pure tidy fun part member => ?_
    exact exist part (List.mem_append_right _ (Entries.parts_ofList_subset pairs member))

theorem replace (h : Handle .map) {members : Value} (given : members ∈ known) :
    Careful watched known (replace h members) fun _ => [] :=
  bind (entriesOf given) fun _ => changeMap h fun _ =>
    List.Subset.trans (List.subset_append_right known _) (List.subset_append_left ..)

/-! ## Namespaces and shorteners -/

theorem newScope (name : String) :
    Careful watched known (newScope name) fun h => [Value.scope h] := by
  unfold Op.newScope
  split
  · refine get fun store tidy _ => .write (tidy.withNames (by simp)) fun left _ =>
      .pure left fun value only => ?_
    obtain rfl := List.mem_singleton.1 only
    exact tidy.has_new store.scopes.not_has_next (store.scopes.has_push_next _)
  · exact throw _

theorem newShortener (table : List (String × String)) :
    Careful watched known (newShortener table) ([·]) :=
  get fun _ tidy _ => .write (tidy.withNames (Nat.le_refl _)) fun left _ => .bare left rfl

theorem addUse (h : Handle .scope) (name : String) (nick : Value) :
    Careful watched known (addUse h name nick) fun _ => [] := by
  have imported (ns : Namespace) : Careful watched known
      (MonadState.modifyGet fun store : Store =>
        (PUnit.unit, { store with scopes := store.scopes.set h ns })) fun _ => [] :=
    fun store tidy _ => .put (tidy.withNames (by simp))
  refine get fun store tidy exist => ?_
  simp only
  split
  · exact .read tidy (Keeps.ofUse _) fun ns => imported ns store tidy exist
  · exact .read tidy (Keeps.ofUse _) fun ns => imported ns store tidy exist
  · exact .read tidy (Keeps.ofUse _) fun _ => .refuse tidy _

theorem shorten (h : Handle .scope) (name : Value) :
    Careful watched [name] (shorten h name) ([·]) := by
  refine get fun store tidy exist => ?_
  split
  · exact .bare tidy rfl
  · split
    · exact .throw tidy _
    · exact .value tidy (exist _ (.head _))

theorem lookUp (h : Handle .shortener) (name : Value) :
    Careful watched [name] (lookUp h name) ([·]) := by
  refine read (fun _ => Keeps.checkKey name) fun _ => ?_
  split
  · exact get fun store tidy _ => .bare tidy rfl
  · exact pure (List.Subset.refl _)

/-! ## Declarations -/

theorem newClass (name scope : Value) : Careful watched [scope] (newClass name scope) ([·]) := by
  refine read (fun _ => Keeps.ofExcept _) fun name => get fun store tidy exist => ?_
  have made (scope : Option (Handle .scope)) (link : ∀ h ∈ scope, store.Has watched (.scope h)) :
      Gives watched store
      (MonadStateOf.set { store with
        classes := store.classes.push
          ⟨{ Declaration.blank (Value.bool false) Value.null with name }, scope⟩ } >>= fun _ =>
        Pure.pure (.classType store.classes.next)) ([·]) := by
    obtain ⟨⟨added, within⟩, new⟩ := tidy.addClass
      ⟨{ Declaration.blank (Value.bool false) Value.null with name }, scope⟩
      (SharedDeclaration.forall_head.2 ⟨has_of_bare rfl, has_of_bare rfl, has_of_bare rfl⟩) link
      rfl rfl rfl
    exact .set within (.value added new)
  simp only
  split
  · refine made _ fun h linked => ?_
    cases linked
    exact exist _ (.head _)
  · exact made none fun h linked => by cases linked
  · exact .throw tidy _

/-- A change that lets the members be, and keeps for the head what is given. -/
theorem changeHead (h : Handle .classType) {change : SharedDeclaration → SharedDeclaration}
    (members : ∀ d, (change d).constants = d.constants ∧ (change d).properties = d.properties ∧
      (change d).methods = d.methods)
    (head : ∀ d, ∀ value ∈ (change d).head,
      value ∈ d.head ∨ value ∈ known ∨ value.leadsOn = false) :
    Careful watched known (changeClass h change) fun _ => [] := by
  intro store tidy exist
  obtain ⟨constants, properties, methods⟩ := members (store.classes.get h).declaration
  exact .put (tidy.changeClass h change
    (fun value member => (head _ value member).imp_right fun new => new.elim (exist _) has_of_bare)
    (fun _ member => .inl (constants ▸ member)) (fun _ member => .inl (properties ▸ member))
    (fun _ member => .inl (methods ▸ member)))

theorem changeFinal (h : Handle .classType) (value : Value) :
    Careful watched [value] (Op.changeClass h fun d => { d with final := value }) fun _ => [] :=
  changeHead h (fun _ => ⟨rfl, rfl, rfl⟩) fun d => SharedDeclaration.forall_head.2
    ⟨.inr (.inl (.head _)), .inl d.abstract_mem_head, .inl d.comment_mem_head⟩

theorem changeAbstract (h : Handle .classType) (value : Value) :
    Careful watched [value] (Op.changeClass h fun d => { d with abstract := value }) fun _ => [] :=
  changeHead h (fun _ => ⟨rfl, rfl, rfl⟩) fun d => SharedDeclaration.forall_head.2
    ⟨.inl d.final_mem_head, .inr (.inl (.head _)), .inl d.comment_mem_head⟩

theorem changeComment (h : Handle .classType) (value : Value) :
    Careful watched [value] (Op.changeClass h fun d => { d with comment := value }) fun _ => [] :=
  changeHead h (fun _ => ⟨rfl, rfl, rfl⟩) fun d => SharedDeclaration.forall_head.2
    ⟨.inl d.final_mem_head, .inl d.abstract_mem_head, .inr (.inl (.head _))⟩

/-- A change of what declarations keep no values in. -/
theorem changeOther (h : Handle .classType) {change : SharedDeclaration → SharedDeclaration}
    (members : ∀ d, (change d).constants = d.constants ∧ (change d).properties = d.properties ∧
      (change d).methods = d.methods)
    (head : ∀ d, (change d).head = d.head) :
    Careful watched known (Op.changeClass h change) fun _ => [] :=
  changeHead h members fun d _ member => .inl (head d ▸ member)

theorem setClassName (h : Handle .classType) (name : Value) :
    Careful watched known (setClassName h name) fun _ => [] :=
  read (fun _ => Keeps.ofExcept _) fun _ => changeOther h (fun _ => ⟨rfl, rfl, rfl⟩) fun _ => rfl

theorem setKind (h : Handle .classType) (kind : Value) :
    Careful watched known (setKind h kind) fun _ => [] := by
  unfold Op.setKind
  split
  · exact changeOther h (fun _ => ⟨rfl, rfl, rfl⟩) fun _ => rfl
  · exact throw _

theorem addClassComment (h : Handle .classType) (line : Value) :
    Careful watched known (addClassComment h line) fun _ => [] := by
  refine peek fun _ => read (fun _ => Keeps.ofExcept _) fun _ =>
    read (fun _ => Keeps.addedText line) fun _ => changeHead h (fun _ => ⟨rfl, rfl, rfl⟩) fun d =>
      SharedDeclaration.forall_head.2 ⟨.inl d.final_mem_head, .inl d.abstract_mem_head, ?_⟩
  exact .inr (.inr rfl)

theorem nameItems {names : Value} (given : names ∈ known) :
    Careful watched known (nameItems names) id := by
  unfold Op.nameItems
  split
  · exact throw _
  · exact items given

theorem setExtends (h : Handle .classType) (names : Value) :
    Careful watched known (setExtends h names) fun _ => [] := by
  refine read (fun _ => Keeps.node? names) fun node => ?_
  split
  · exact read (fun _ => Keeps.ofExcept _) fun _ =>
      changeOther h (fun _ => ⟨rfl, rfl, rfl⟩) fun _ => rfl
  · exact read (fun _ => Keeps.ofExcept _) fun _ =>
      changeOther h (fun _ => ⟨rfl, rfl, rfl⟩) fun _ => rfl
  · exact read (fun _ => Keeps.ofExcept _) fun _ =>
      changeOther h (fun _ => ⟨rfl, rfl, rfl⟩) fun _ => rfl
  · exact throw _

theorem addExtend (h : Handle .classType) (name : Value) :
    Careful watched known (addExtend h name) fun _ => [] :=
  read (fun _ => Keeps.ofExcept _) fun _ => changeOther h (fun _ => ⟨rfl, rfl, rfl⟩) fun _ => rfl

theorem setImplements (h : Handle .classType) {names : Value} (given : names ∈ known) :
    Careful watched known (setImplements h names) fun _ => [] :=
  bind (nameItems given) fun _ => read (fun _ => Keeps.ofExcept _) fun _ =>
    changeOther h (fun _ => ⟨rfl, rfl, rfl⟩) fun _ => rfl

theorem addImplement (h : Handle .classType) (name : Value) :
    Careful watched known (addImplement h name) fun _ => [] :=
  read (fun _ => Keeps.ofExcept _) fun _ => changeOther h (fun _ => ⟨rfl, rfl, rfl⟩) fun _ => rfl

theorem setTraits (h : Handle .classType) {names : Value} (given : names ∈ known) :
    Careful watched known (setTraits h names) fun _ => [] :=
  bind (nameItems given) fun _ => read (fun _ => Keeps.ofExcept _) fun _ =>
    changeOther h (fun _ => ⟨rfl, rfl, rfl⟩) fun _ => rfl

theorem addTrait (h : Handle .classType) (name : Value) {resolutions : Option Value}
    (given : ∀ value ∈ resolutions, value ∈ known) :
    Careful watched known (addTrait h name resolutions) fun _ => [] := by
  refine read (fun _ => Keeps.ofExcept _) fun name => ?_
  have last {known : List Value} (resolutions : List Value) : Careful watched known
      (do
        let words ← ofExcept (resolutions.mapM (← MonadState.get).resolution)
        changeClass h fun d => { d with traits := d.traits.upsert name words }) fun _ => [] :=
    peek fun _ => read (fun _ => Keeps.ofExcept _) fun _ =>
      changeOther h (fun _ => ⟨rfl, rfl, rfl⟩) fun _ => rfl
  simp only
  split
  · exact last []
  · exact throw _
  · exact bind (items (given _ rfl)) fun found => last found

theorem keyedItems {value : Value} (given : value ∈ known) :
    Careful watched known (keyedItems value) (·.map Prod.snd) := by
  refine bind (node? given) fun node => ?_
  split
  · refine pure fun part member => ?_
    obtain ⟨entry, inside, rfl⟩ := List.mem_map.1 member
    obtain ⟨written, there, rfl⟩ := List.mem_map.1 inside
    exact List.mem_append_right _ (Entries.snd_mem_parts there)
  · refine bind (items (List.mem_append_left _ given)) fun found => pure fun part member => ?_
    obtain ⟨entry, inside, rfl⟩ := List.mem_map.1 member
    obtain ⟨item, there, rfl⟩ := List.mem_map.1 inside
    exact List.mem_append_right _ there

theorem valueItems {value : Value} (given : value ∈ known) :
    Careful watched known (valueItems value) id :=
  bind (keyedItems given) fun _ => pure (List.subset_append_right ..)

end Careful

/-! ### Members that are set all at once -/

namespace Ends

variable {store : Store}

/-- A declaration gets constants under their names. -/
theorem setConstants (tidy : store.Tidy watched) (h : Handle .classType) {constants : Value}
    (has : store.Has watched constants) :
    Ends watched store (setConstants h constants) fun _ after => after.InOrder (.constants h) := by
  refine (Careful.keyedItems (List.mem_singleton_self _) store tidy
    (List.forall_mem_singleton.2 has)).bind
    fun entries store tidy _ exist => .get (.ofExcept tidy fun drafts read => ?_)
  have listed := Label.of_mem_ofList (fun draft => store.constantName draft) drafts
  obtain ⟨settled, within, named⟩ := tidy.settleConstants
    (OrderedMap.ofList _).entries
    (fun constant member => by
      obtain ⟨entry, inside, same⟩ := List.mem_map.1 member
      obtain ⟨given, there, drafted⟩ := exists_of_mem_mapM read (listed entry inside).1
      rw [same] at drafted
      rw [← Store.eq_of_constantDraft drafted]
      exact exist _ (List.mem_map.2 ⟨given, there, rfl⟩))
    (fun entry member => (listed entry member).2)
  have left := settled.changeConstants h
    (fun _ => ((OrderedMap.ofList _).mapAccum Arena.settle _).2)
    fun entry member => .inr (named entry member)
  exact ⟨left.1, within.trans left.2, Store.inOrder_constants named⟩

theorem setProperties (tidy : store.Tidy watched) (h : Handle .classType) {properties : Value}
    (has : store.Has watched properties) :
    Ends watched store (setProperties h properties) fun _ after =>
      after.InOrder (.properties h) := by
  refine (Careful.valueItems (List.mem_singleton_self _) store tidy
    (List.forall_mem_singleton.2 has)).bind
    fun items store tidy _ exist => .get (.ofExcept tidy fun handles read => ?_)
  have named : ∀ entry ∈ (OrderedMap.ofList (handles.map fun h =>
      (Label.ofIdentifier (store.properties.get h).name, h))).entries,
      store.Named watched entry.1 (.property entry.2) := fun entry member => by
    obtain ⟨inside, called⟩ := Label.of_mem_ofList _ handles entry member
    obtain ⟨given, there, listed⟩ := exists_of_mem_mapM read inside
    exact ⟨Store.eq_of_listedProperty listed ▸ exist _ there, called⟩
  have left := tidy.changeProperties h (fun _ => .ofList _) fun entry member =>
    .inr (named entry member)
  exact ⟨left.1, left.2, Store.inOrder_properties named⟩

theorem setMethods (tidy : store.Tidy watched) (h : Handle .classType) {methods : Value}
    (has : store.Has watched methods) :
    Ends watched store (setMethods h methods) fun _ after => after.InOrder (.methods h) := by
  refine (Careful.valueItems (List.mem_singleton_self _) store tidy
    (List.forall_mem_singleton.2 has)).bind
    fun items store tidy _ exist => .get (.ofExcept tidy fun handles read => ?_)
  have named : ∀ entry ∈ (OrderedMap.ofList (handles.map fun h =>
      (Label.ofIdentifier (store.methods.get h).name, h))).entries,
      store.Named watched entry.1 (.method entry.2) := fun entry member => by
    obtain ⟨inside, called⟩ := Label.of_mem_ofList _ handles entry member
    obtain ⟨given, there, listed⟩ := exists_of_mem_mapM read inside
    exact ⟨Store.eq_of_listedMethod listed ▸ exist _ there, called⟩
  have left := tidy.changeMethods h (fun _ => .ofList _) fun entry member =>
    .inr (named entry member)
  exact ⟨left.1, left.2, Store.inOrder_methods named⟩

end Ends

namespace Careful

theorem setConstants (h : Handle .classType) {constants : Value} (given : constants ∈ known) :
    Careful watched known (setConstants h constants) fun _ => [] :=
  fun _ tidy exist =>
    (Ends.setConstants tidy h (exist _ given)).mono fun _ _ _ _ none => by cases none

theorem addConstant (h : Handle .classType) (name value : Value) :
    Careful watched known (addConstant h name value) ([·]) := by
  refine get fun store tidy _ => .ofExcept tidy fun name _ => .ofExcept tidy fun literal _ => ?_
  let constant := { Constant.named name.toIdentifier with value := literal }
  obtain ⟨added, first⟩ := tidy.addConstant constant
  obtain ⟨last, named⟩ := tidy.named_addConstant constant
  have left := added.changeConstants h (·.upsert name store.constants.next) fun entry member =>
    (Label.of_mem_upsert member).imp_right fun ⟨new, key⟩ => by
      rw [new]
      exact ⟨last, named.trans key⟩
  exact .set (first.trans left.2) (.value left.1 (last.mono left.2))

theorem setProperties (h : Handle .classType) {properties : Value} (given : properties ∈ known) :
    Careful watched known (setProperties h properties) fun _ => [] :=
  fun _ tidy exist =>
    (Ends.setProperties tidy h (exist _ given)).mono fun _ _ _ _ none => by cases none

theorem addProperty (h : Handle .classType) (name value : Value) :
    Careful watched known (addProperty h name value) ([·]) := by
  refine get fun store tidy _ => .ofExcept tidy fun name _ => .ofExcept tidy fun literal _ => ?_
  let property := { Property.named name.toIdentifier with value := literal }
  obtain ⟨added, first⟩ := tidy.addProperty property
  obtain ⟨last, named⟩ := tidy.named_addProperty property
  have left := added.changeProperties h (·.upsert name store.properties.next) fun entry member =>
    (Label.of_mem_upsert member).imp_right fun ⟨new, key⟩ => by
      rw [new]
      exact ⟨last, named.trans key⟩
  exact .set (first.trans left.2) (.value left.1 (last.mono left.2))

theorem setMethods (h : Handle .classType) {methods : Value} (given : methods ∈ known) :
    Careful watched known (setMethods h methods) fun _ => [] :=
  fun _ tidy exist =>
    (Ends.setMethods tidy h (exist _ given)).mono fun _ _ _ _ none => by cases none

theorem addMethod (h : Handle .classType) (name : Value) :
    Careful watched known (addMethod h name) ([·]) := by
  refine get fun store tidy _ => .ofExcept tidy fun name _ => ?_
  let method := methodFor (store.classes.get h).declaration.kind name.toIdentifier
  have bare : method.parameters = .empty := by
    cases kind : (store.classes.get h).declaration.kind <;> simp only [method, kind] <;> rfl
  have called : method.name.text = name.word.toText := by
    cases kind : (store.classes.get h).declaration.kind <;> simp only [method, kind] <;> rfl
  obtain ⟨added, first⟩ := tidy.addMethod method (bare ▸ fun _ none => by cases none)
    (bare ▸ fun _ _ none => by cases none)
  obtain ⟨last, named⟩ := tidy.named_addMethod method
  have left := added.changeMethods h (·.upsert name store.methods.next) fun entry member =>
    (Label.of_mem_upsert member).imp_right fun ⟨new, key⟩ => by
      rw [new]
      exact ⟨last, (named.trans called).trans key⟩
  exact .set (first.trans left.2) (.value left.1 (last.mono left.2))

theorem typeNames (names : List TypeName) :
    Careful watched known (Op.newNode (.list (typeNameValues names))) ([·]) :=
  newNodeOf fun _ member => .inr (leadsOn_typeNameValues member)

theorem lookup {role : Role} (kind : String) (members : OrderedMap Label (Handle role))
    (name : Value) {store : Store} (tidy : store.Tidy watched) (wrap : Handle role → Value)
    (exist : ∀ entry ∈ members.entries, store.Has watched (wrap entry.2)) :
    Gives watched store (lookup kind members name) fun h => [wrap h] := by
  refine .read tidy (Keeps.checkKey name) fun _ => ?_
  split
  next h found =>
    obtain ⟨label, -, found⟩ := Option.bind_eq_some_iff.1 found
    obtain ⟨entry, member, rfl, -⟩ := Entries.mem_of_find? found
    refine .pure tidy fun value only => ?_
    obtain rfl := List.mem_singleton.1 only
    exact exist entry member
  next => exact .refuse tidy _

theorem resolutionDict (traits : OrderedMap TypeName (List Word)) :
    Careful watched known (resolutionDict traits) ([·]) := by
  have words (words : List Word) : Careful watched known
      (Op.newNode (.list (words.map .word))) ([·]) :=
    newNodeOf fun value member => .inr (by
      obtain ⟨word, -, rfl⟩ := List.mem_map.1 member
      rfl)
  have entry (entry : TypeName × List Word) : Careful watched known
      (do return (Value.word entry.1.word, ← Op.newNode (.list (entry.2.map .word))))
      fun pair => [pair.1, pair.2] :=
    fun store tidy exist => (words entry.2 store tidy exist).bind fun node _ tidy _ has =>
      .pure tidy fun value member => by
        obtain rfl | member := List.mem_cons.1 member
        · exact has_of_bare rfl
        · exact has value member
  exact bind (mapM entry traits.entries) fun entries =>
    (newNode (.dict entries)).of_subset (List.subset_append_right ..)

end Careful

end Op

end PhpDecl
