import PhpDecl.Proofs.Tidiness.Declarations
import PhpDecl.Request

/-!
# Requests keep stores tidy

No request gives a member another name, or a method other parameters all at once: what is watched
stays in order, whatever is asked of whom.
-/

namespace PhpDecl

/-- No request assigns a name, or parameters. -/
theorem Request.ne_of_assigned? {type : MemberType} {request : Request} {field : Field}
    (assigned : request.assigned? type = some field) : field ≠ .name ∧ field ≠ .parameters := by
  unfold assigned? at assigned
  split at assigned <;> cases assigned <;> simp

namespace Op.Careful

open Store

variable {watched : Watch} {known : List Value}

theorem renderWith (target : Value) (shortener : Option Shortener) (layout : Layout) :
    Careful watched known (renderWith target shortener layout) ([·]) := by
  refine get fun store tidy _ => ?_
  cases target with
  | classType h => exact .ofExcept tidy fun _ _ => .bare tidy rfl
  | constant h | property h | method h => exact .bare tidy rfl
  | _ => exact .throw tidy _

theorem render (target shortener : Value) (layout : Layout) :
    Careful watched known (render target shortener layout) ([·]) :=
  peek fun _ => read (fun _ => Keeps.shortenerOf _ shortener) fun _ => renderWith target _ layout

theorem renderParameters (target shortener : Value) (layout : Layout) :
    Careful watched known (renderParameters target shortener layout) ([·]) := by
  refine peek fun _ => read (fun _ => Keeps.shortenerOf _ shortener) fun _ =>
    get fun store tidy _ => ?_
  cases target with
  | method h => exact .bare tidy rfl
  | _ => exact .throw tidy _

theorem text (value : Value) : Careful watched known (text value) ([·]) :=
  get fun _ tidy _ => .ofExcept tidy fun _ _ => .ofExcept tidy fun _ _ => .bare tidy rfl

theorem inspect (value : Value) : Careful watched known (inspect value) ([·]) :=
  get fun _ tidy _ => .ofExcept tidy fun _ _ => .bare tidy rfl

theorem checkTypeNames {names : Value} (given : names ∈ known) :
    Careful watched known (checkTypeNames names) fun _ => [] :=
  bind (items given) fun _ => read (fun _ => Keeps.ofExcept _) fun _ => pure (List.nil_subset _)

theorem checkName (name : Value) : Careful watched [name] (checkName name) ([·]) := by
  unfold Op.checkName
  split
  · exact pure (List.Subset.refl _)
  · exact fun _ tidy _ => .refuse tidy _

theorem checkValue (value : Value) : Careful watched [value] (checkValue value) ([·]) :=
  peek fun _ => read (fun _ => Keeps.ofExcept _) fun _ => pure (List.Subset.refl _)

theorem sizeOf {value : Value} (given : value ∈ known) :
    Careful watched known (sizeOf value) fun _ => [] := by
  have counted : Careful watched known (do return (← Op.items value).length) fun _ => [] :=
    bind (items given) fun _ => pure (List.nil_subset _)
  refine peek fun store => ?_
  split
  · exact counted
  · exact counted
  · exact counted
  · exact counted
  · exact throw _

/-! ## Declarations -/

theorem tellClass {h : Handle .classType} (given : .classType h ∈ known) (request : Request) :
    Careful watched known (tellClass h request) ([·]) := by
  refine get fun store tidy exist => ?_
  have held := exist _ given
  have parts := SharedDeclaration.forall_parts.1 fun value kept =>
    (tidy.classes h value kept).has held
  obtain ⟨head, constants, properties, methods⟩ := parts
  obtain ⟨final, abstract, comment⟩ := SharedDeclaration.forall_head.1 head
  have dict {role : Role} (wrap : Handle role → Value) (members : OrderedMap Label (Handle role))
      (all : ∀ entry ∈ members.entries, store.Has watched (wrap entry.2)) :
      Gives watched store (Op.newNode (memberDict wrap members)) ([·]) :=
    newNode _ store tidy (Entries.forall_parts_map (fun label : Label => .word label.word) wrap
      (fun _ => has_of_bare rfl) all)
  have switched {op : Op Unit} (careful : Careful watched [.bool true] op fun _ => []) :
      Gives watched store (op >>= fun _ => Pure.pure (.classType h)) ([·]) :=
    (careful store tidy (List.forall_mem_singleton.2 (has_of_bare rfl))).bind
      fun _ _ tidy within _ => .value tidy (held.mono within)
  cases request with
  | getName =>
      refine .bare tidy ?_
      cases (store.classes.get h).declaration.name <;> rfl
  | getType => exact .bare tidy rfl
  | isFinal => exact .value tidy final
  | isAbstract => exact .value tidy abstract
  | getComment => exact .value tidy comment
  | getNamespace =>
      refine .value tidy ?_
      have link := tidy.links h
      cases linked : (store.classes.get h).scope with
      | none => exact has_of_bare rfl
      | some scope => exact link scope linked
  | setFinal => exact switched (changeFinal h _)
  | setAbstract => exact switched (changeAbstract h _)
  | getExtends =>
      simp only
      split
      · exact .bare tidy rfl
      · exact typeNames _ store tidy exist
  | getImplements | getTraits => exact typeNames _ store tidy exist
  | getConstants => exact dict _ _ constants
  | getProperties => exact dict _ _ properties
  | getMethods => exact dict _ _ methods
  | getTraitResolutions => exact resolutionDict _ store tidy exist
  | _ => exact .throw tidy _

theorem askClassWith (h : Handle .classType) (request : Request) (arg : Value) :
    Careful watched [.classType h, arg] (askClassWith h request arg) ([·]) := by
  have argument : arg ∈ [.classType h, arg] := .tail _ (.head _)
  have self (_ : Unit) :
      Careful watched ([.classType h, arg] ++ []) (Pure.pure (.classType h)) ([·]) :=
    given (.head _)
  refine get fun store tidy exist => ?_
  have here {op : Op Value} (careful : Careful watched [.classType h, arg] op ([·])) :
      Gives watched store op ([·]) := careful store tidy exist
  have changed {op : Op Unit} (careful : Careful watched [arg] op fun _ => []) :
      Gives watched store (op >>= fun _ => Pure.pure (.classType h)) ([·]) :=
    here (bind (careful.of_subset (List.subset_cons_self ..)) self)
  have parts := SharedDeclaration.forall_parts.1 fun value kept =>
    (tidy.classes h value kept).has (exist _ (.head _))
  obtain ⟨-, constants, properties, methods⟩ := parts
  have found {role : Role} (kind : String) (members : OrderedMap Label (Handle role))
      (wrap : Handle role → Value)
      (all : ∀ entry ∈ members.entries, store.Has watched (wrap entry.2)) :
      Gives watched store (do return wrap (← Op.lookup kind members arg)) ([·]) :=
    (lookup kind members arg tidy wrap all).bind fun _ _ tidy _ has => .pure tidy has
  cases request with
  | setName => exact here (bind (setClassName h arg) self)
  | setType => exact here (bind (setKind h arg) self)
  | setFinal => exact changed (changeFinal h arg)
  | setAbstract => exact changed (changeAbstract h arg)
  | setComment => exact changed (changeComment h arg)
  | addComment => exact here (bind (addClassComment h arg) self)
  | setExtends => exact here (bind (setExtends h arg) self)
  | addExtend => exact here (bind (addExtend h arg) self)
  | setImplements => exact here (bind (setImplements h argument) self)
  | addImplement => exact here (bind (addImplement h arg) self)
  | setTraits => exact here (bind (setTraits h argument) self)
  | addTrait => exact here (bind (addTrait h arg fun _ none => by cases none) self)
  | setConstants => exact here (bind (setConstants h argument) self)
  | setProperties => exact here (bind (setProperties h argument) self)
  | setMethods => exact here (bind (setMethods h argument) self)
  | getConstant => exact found _ _ _ constants
  | getProperty => exact found _ _ _ properties
  | getMethod => exact found _ _ _ methods
  | addProperty => exact here (addProperty h arg .null)
  | addMethod => exact here (addMethod h arg)
  | checkMemberName => exact .ofExcept tidy fun _ _ => .bare tidy rfl
  | checkTypeNames => exact here (bind (checkTypeNames argument) fun _ => bare rfl)
  | listNames => exact here (bind (nameItems argument) fun found =>
      (newNode (.list found)).of_subset (List.subset_append_right ..))
  | _ => exact .throw tidy _

theorem askClass (h : Handle .classType) (request : Request) (args : List Value) :
    Careful watched (.classType h :: args) (askClass h request args) ([·]) := by
  unfold Op.askClass
  split
  next => exact tellClass (.head _) request
  next arg => exact askClassWith h request arg
  next name value =>
    cases request with
    | addTrait =>
        refine bind (addTrait h name fun other same => ?_) fun _ => given (.head _)
        cases same
        exact .tail _ (.tail _ (.head _))
    | addConstant => exact addConstant h name value
    | addProperty => exact addProperty h name value
    | _ => exact throw _
  next => exact throw _

/-! ## Members -/

theorem askMethod (h : Handle .method) (request : Request) (args : List Value) :
    Careful watched [.method h] (askMethod h request args) ([·]) := by
  have self (_ : Unit) : Careful watched ([.method h] ++ []) (Pure.pure (.method h)) ([·]) :=
    given (.head _)
  refine get fun store tidy exist => ?_
  have here {op : Op Value} (careful : Careful watched [.method h] op ([·])) :
      Gives watched store op ([·]) := careful store tidy exist
  simp only
  split
  · exact here (bind (addBody h _) self)
  · exact here (addParameter h _ none)
  · exact here (addParameter h _ (some _))
  · refine newNode _ store tidy fun value member => ?_
    obtain ⟨parameter, inside, rfl⟩ := List.mem_map.1 member
    exact (tidy.methods h parameter inside).has (exist _ (.head _))
  · exact here (bind (setReturnType _ _ _) self)
  · exact here (bind (setReturnType _ _ _) self)
  · exact .bare tidy rfl
  · exact .throw tidy _

theorem askMember (type : MemberType) (target : Value) (request : Request) (args : List Value) :
    Careful watched (target :: args) (askMember type target request args) ([·]) := by
  have self (_ : Unit) : Careful watched ((target :: args) ++ []) (Pure.pure target) ([·]) :=
    given (.head _)
  unfold Op.askMember
  split
  next field assigned =>
    obtain ⟨notName, notParameters⟩ := Request.ne_of_assigned? assigned
    split
    · exact bind (assignOther target _ notName notParameters) self
    · split
      · exact bind (assignOther target _ notName notParameters) self
      · exact throw _
    · exact throw _
  next =>
    split
    · exact (checkName _).of_subset (List.subset_cons_self ..)
    · exact bind (setDefault target _) self
    · exact (checkValue _).of_subset (List.subset_cons_self ..)
    · exact throw _
    · exact (checkValue _).of_subset (List.subset_cons_self ..)
    · exact (checkValue _).of_subset (List.subset_cons_self ..)
    · refine bind (fieldOf (.head _) .name) fun value => ?_
      cases value with
      | none => exact bare rfl
      | some value => exact pure (List.subset_append_right ..)
    · exact bind (addComment target _) self
    · exact render _ _ _
    · exact render _ _ _
    · refine peek fun store => ?_
      split
      · exact throw _
      · exact render _ _ _
    · split
      · exact (askMethod _ request args).of_subset (List.cons_subset.2 ⟨.head _, List.nil_subset _⟩)
      · exact throw _

/-! ## Other objects -/

theorem askScope (h : Handle .scope) (request : Request) (args : List Value) :
    Careful watched (.scope h :: args) (askScope h request args) ([·]) := by
  unfold Op.askScope
  simp only
  split
  · exact bind (addUse h _ _) fun _ => given (.head _)
  · exact bind (addUse h _ _) fun _ => given (.head _)
  · refine peek fun store => newNodeOf fun value member => .inr ?_
    exact Entries.forall_parts_map (p := (Value.leadsOn · = false))
      (fun nick : Label => .word nick.word) (fun name : QualifiedName => .text name.text)
      (fun _ => rfl) (fun _ _ => rfl) value member
  · exact (shorten h _).of_subset (List.subset_cons_self ..)
  · exact throw _

theorem askMap (h : Handle .map) (request : Request) (args : List Value) :
    Careful watched (.map h :: args) (askMap h request args) ([·]) := by
  refine get fun store tidy exist => ?_
  have kept (value : Value) (member : value ∈ Entries.parts (store.maps.get h).items) :
      store.Has watched value := (tidy.maps h value member).has (exist _ (.head _))
  simp only
  split
  · exact (upsert h _ _).of_subset (List.subset_cons_self ..) store tidy exist
  · exact find (.head _) _ store tidy exist
  · exact (replace h (.tail _ (.head _)) store tidy exist).bind fun _ _ tidy _ _ =>
      .bare tidy rfl
  · exact .read tidy (Keeps.hasKey h _) fun _ => .bare tidy rfl
  · exact .bare tidy rfl
  · exact .bare tidy rfl
  · refine newNode _ store tidy fun value member => ?_
    obtain ⟨entry, inside, rfl⟩ := List.mem_map.1 member
    exact kept _ (Entries.fst_mem_parts inside)
  · exact newNode _ store tidy kept
  · exact .throw tidy _

theorem ask (target : Value) (request : Request) (args : List Value) :
    Careful watched (target :: args) (ask target request args) ([·]) := by
  unfold Op.ask
  split
  · exact text target
  · exact inspect target
  · cases target with
    | classType h => exact askClass h request args
    | constant h => exact askMember .constant _ request args
    | property h => exact askMember .property _ request args
    | parameter h => exact askMember .parameter _ request args
    | method h => exact askMember .method _ request args
    | scope h => exact askScope h request args
    | map h => exact askMap h request args
    | shortener h =>
        simp only [Op.askObject]
        split
        · exact (lookUp h _).of_subset (List.subset_cons_self ..)
        · exact throw _
    | supertypes s =>
        simp only [Op.askObject]
        split
        · exact typeNames _
        · exact throw _
    | _ => exact throw _

theorem readAttribute {target : Value} (given : target ∈ known) (label : String) :
    Careful watched known (readAttribute target label) ([·]) := by
  refine peek fun store => ?_
  split
  · exact bare rfl
  · exact bare rfl
  · exact newNodeOf fun _ member => .inr (leadsOn_typeNameValues member)
  · exact bare rfl
  · exact bare rfl
  · refine bind (mapOption (fieldOf given) _) fun field =>
      bind (noteOf (List.mem_append_left _ given) label) fun note => ?_
    split
    next value found =>
      refine pure (List.cons_subset.2 ⟨List.mem_append_left _ (List.mem_append_right _ ?_),
        List.nil_subset _⟩)
      rw [Option.join_eq_some_iff] at found
      rw [found]
      exact .head _
    next => exact pure (List.subset_append_right ..)
    next => exact throw _

end Op.Careful

end PhpDecl
