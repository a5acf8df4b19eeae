import PhpDecl.Proofs.Arenas
import PhpDecl.Proofs.Frame.Term
import PhpDecl.Session

/-!
# The comments of declarations

A declaration keeps whatever it is given as its comment. As long as it is given texts and null
alone, every comment is one of these: no other request writes anything else, whether it succeeds
or is refused, and cutting the links to namespaces that are gone changes no comment.
-/

namespace PhpDecl

def Value.IsComment (value : Value) : Prop := value = .null ∨ ∃ word, value = .word word

def ClassObject.Commented (object : ClassObject) : Prop := object.declaration.comment.IsComment

abbrev Op.Commented : Store → Prop := Op.OnClasses fun classes => ∀ h, (classes.get h).Commented

namespace Op

namespace Keeps

variable {P : Store → Prop} [Growing P]

/-! ## Operations on declarations -/

theorem newClass (name scope : Value) : Keeps Commented (newClass name scope) := by
  refine bind (ofExcept _) fun name => get fun store kept => ?_
  have added (scope : Option (Handle .scope)) : Commented { store with
      classes := store.classes.push
        ⟨{ Declaration.blank (Value.bool false) Value.null with name }, scope⟩ } :=
    Arena.forall_get_push ClassObject.Commented kept (.inl rfl)
  simp only
  split
  · exact bind (pure _) fun scope => bind (set (added scope)) fun _ => pure _
  · exact bind (pure _) fun scope => bind (set (added scope)) fun _ => pure _
  · exact bind (throw _) fun scope => bind (set (added scope)) fun _ => pure _

theorem setClass {store : Store} (h : Handle .classType)
    {change : SharedDeclaration → SharedDeclaration}
    (step : ∀ d, d.comment.IsComment → (change d).comment.IsComment) (kept : Commented store) :
    Keeps Commented (MonadStateOf.set (store.changeClass h change)) :=
  set (Arena.forall_get_set ClassObject.Commented kept (step _ (kept h)))

theorem changeClass (h : Handle .classType) {change : SharedDeclaration → SharedDeclaration}
    (step : ∀ d, d.comment.IsComment → (change d).comment.IsComment) :
    Keeps Commented (changeClass h change) := 
  modify fun _ kept => Arena.forall_get_set ClassObject.Commented kept (step _ (kept h))

theorem setClassName (h : Handle .classType) (name : Value) :
    Keeps Commented (setClassName h name) :=
  bind (ofExcept _) fun _ => changeClass h fun _ => id

theorem setKind (h : Handle .classType) (kind : Value) : Keeps Commented (setKind h kind) := by
  unfold Op.setKind
  split
  · exact changeClass h fun _ => id
  · exact throw _

theorem addClassComment (h : Handle .classType) (line : Value) :
    Keeps Commented (addClassComment h line) :=
  get fun _ _ => bind (ofExcept _) fun _ => bind (addedText line) fun _ =>
    changeClass h fun _ _ => .inr ⟨_, rfl⟩

theorem nameItems (names : Value) : Keeps P (nameItems names) := by
  unfold Op.nameItems
  split
  · exact throw _
  · exact items names

theorem setExtends (h : Handle .classType) (names : Value) :
    Keeps Commented (setExtends h names) := by
  refine bind (node? names) fun node => ?_
  split
  · exact bind (ofExcept _) fun _ => changeClass h fun _ => id
  · exact bind (ofExcept _) fun _ => changeClass h fun _ => id
  · exact bind (ofExcept _) fun _ => changeClass h fun _ => id
  · exact throw _

theorem addExtend (h : Handle .classType) (name : Value) : Keeps Commented (addExtend h name) :=
  bind (ofExcept _) fun _ => changeClass h fun _ => id

theorem setImplements (h : Handle .classType) (names : Value) :
    Keeps Commented (setImplements h names) :=
  bind (nameItems names) fun _ => bind (ofExcept _) fun _ => changeClass h fun _ => id

theorem addImplement (h : Handle .classType) (name : Value) :
    Keeps Commented (addImplement h name) :=
  bind (ofExcept _) fun _ => changeClass h fun _ => id

theorem setTraits (h : Handle .classType) (names : Value) : Keeps Commented (setTraits h names) :=
  bind (nameItems names) fun _ => bind (ofExcept _) fun _ => changeClass h fun _ => id

theorem addTrait (h : Handle .classType) (name : Value) (resolutions : Option Value) :
    Keeps Commented (addTrait h name resolutions) := by
  refine bind (ofExcept _) fun name => ?_
  simp only
  split
  · exact bind (pure _) fun _ => get fun _ _ => bind (ofExcept _) fun _ =>
      changeClass h fun _ => id
  · exact bind (throw _) fun _ => get fun _ _ => bind (ofExcept _) fun _ =>
      changeClass h fun _ => id
  · exact bind (items _) fun _ => get fun _ _ => bind (ofExcept _) fun _ =>
      changeClass h fun _ => id

theorem keyedItems (value : Value) : Keeps P (keyedItems value) := by
  refine bind (node? value) fun node => ?_
  split
  · exact pure _
  · exact bind (items value) fun _ => pure _

theorem valueItems (value : Value) : Keeps P (valueItems value) :=
  bind (keyedItems value) fun _ => pure _

theorem setConstants (h : Handle .classType) (constants : Value) :
    Keeps Commented (setConstants h constants) :=
  bind (keyedItems constants) fun _ => get fun _ kept => bind (ofExcept _) fun _ =>
    setClass h (fun _ => id) kept

theorem addConstant (h : Handle .classType) (name value : Value) :
    Keeps Commented (addConstant h name value) :=
  get fun _ kept => bind (ofExcept _) fun _ => bind (ofExcept _) fun _ =>
    bind (setClass h (fun _ => id) kept) fun _ => pure _

theorem setProperties (h : Handle .classType) (properties : Value) :
    Keeps Commented (setProperties h properties) :=
  bind (valueItems properties) fun _ => get fun _ _ => bind (ofExcept _) fun _ =>
    changeClass h fun _ => id

theorem addProperty (h : Handle .classType) (name value : Value) :
    Keeps Commented (addProperty h name value) :=
  get fun _ kept => bind (ofExcept _) fun _ => bind (ofExcept _) fun _ =>
    bind (setClass h (fun _ => id) kept) fun _ => pure _

theorem setMethods (h : Handle .classType) (methods : Value) :
    Keeps Commented (setMethods h methods) :=
  bind (valueItems methods) fun _ => get fun _ _ => bind (ofExcept _) fun _ =>
    changeClass h fun _ => id

theorem addMethod (h : Handle .classType) (name : Value) : Keeps Commented (addMethod h name) :=
  get fun _ kept => bind (ofExcept _) fun _ =>
    bind (setClass h (fun _ => id) kept) fun _ => pure _

theorem lookup {P : Store → Prop} {role : Role} (kind : String)
    (members : OrderedMap Label (Handle role)) (name : Value) :
    Keeps P (lookup kind members name) := by
  refine bind (checkKey name) fun _ => ?_
  split
  · exact pure _
  · exact refuse _

theorem resolutionDict (traits : OrderedMap TypeName (List Word)) :
    Keeps P (resolutionDict traits) :=
  bind (mapM (fun _ => bind (newNode _) fun _ => pure _) _) fun _ => newNode _

/-! ## Requests -/

theorem shortenerOf {P : Store → Prop} (names : Bool) (value : Value) :
    Keeps P (shortenerOf names value) := by
  refine get fun store _ => ?_
  split
  · exact pure _
  · exact pure _
  · split
    · exact throw _
    · exact pure _

theorem renderWith {P : Store → Prop} (target : Value) (shortener : Option Shortener)
    (layout : Layout) : Keeps P (renderWith target shortener layout) := by
  refine get fun store _ => ?_
  cases target with
  | classType h => exact bind (ofExcept _) fun _ => pure _
  | constant h => exact pure _
  | property h => exact pure _
  | method h => exact pure _
  | _ => exact throw _

theorem render {P : Store → Prop} (target shortener : Value) (layout : Layout) :
    Keeps P (render target shortener layout) :=
  get fun _ _ => bind (shortenerOf _ shortener) fun _ => renderWith target _ layout

theorem renderParametersWith {P : Store → Prop} (target : Value) (shortener : Option Shortener)
    (layout : Layout) : Keeps P (renderParametersWith target shortener layout) := by
  refine get fun store _ => ?_
  cases target with
  | method h => exact pure _
  | _ => exact throw _

theorem renderParameters {P : Store → Prop} (target shortener : Value) (layout : Layout) :
    Keeps P (renderParameters target shortener layout) :=
  get fun _ _ => bind (shortenerOf _ shortener) fun _ => renderParametersWith target _ layout

theorem text {P : Store → Prop} (value : Value) : Keeps P (text value) :=
  get fun _ _ => bind (ofExcept _) fun _ => bind (ofExcept _) fun _ => pure _

theorem inspect {P : Store → Prop} (value : Value) : Keeps P (inspect value) :=
  get fun _ _ => bind (ofExcept _) fun _ => pure _

theorem checkTypeNames (names : Value) : Keeps P (checkTypeNames names) :=
  bind (items names) fun _ => bind (ofExcept _) fun _ => pure _

theorem checkName {P : Store → Prop} (name : Value) : Keeps P (checkName name) := by
  unfold Op.checkName
  split
  · exact pure _
  · exact refuse _

theorem checkValue {P : Store → Prop} (value : Value) : Keeps P (checkValue value) :=
  get fun _ _ => bind (ofExcept _) fun _ => pure _

theorem sizeOf (value : Value) : Keeps Commented (sizeOf value) := by
  refine get fun store _ => ?_
  split
  · exact bind (items _) fun _ => pure _
  · exact bind (items _) fun _ => pure _
  · exact bind (items _) fun _ => pure _
  · exact bind (items _) fun _ => pure _
  · exact throw _

theorem tellClass (h : Handle .classType) (request : Request) :
    Keeps Commented (tellClass h request) := by
  refine get fun store _ => ?_
  cases request with
  | getName | getType | isFinal | isAbstract | getComment | getNamespace => exact pure _
  | setFinal | setAbstract => exact bind (changeClass h fun _ => id) fun _ => pure _
  | getExtends =>
      simp only
      split
      · exact pure _
      · exact newNode _
  | getImplements | getTraits | getConstants | getProperties | getMethods => exact newNode _
  | getTraitResolutions => exact resolutionDict _
  | _ => exact throw _

/-- A declaration keeps a comment, unless it is given something else as one. -/
theorem askClassWith (h : Handle .classType) {request : Request} {arg : Value}
    (comment : request = .setComment → arg.IsComment) :
    Keeps Commented (askClassWith h request arg) := by
  refine get fun store _ => ?_
  cases request with
  | setName => exact bind (setClassName h arg) fun _ => pure _
  | setType => exact bind (setKind h arg) fun _ => pure _
  | setFinal | setAbstract => exact bind (changeClass h fun _ => id) fun _ => pure _
  | setComment => exact bind (changeClass h fun _ _ => comment rfl) fun _ => pure _
  | addComment => exact bind (addClassComment h arg) fun _ => pure _
  | setExtends => exact bind (setExtends h arg) fun _ => pure _
  | addExtend => exact bind (addExtend h arg) fun _ => pure _
  | setImplements => exact bind (setImplements h arg) fun _ => pure _
  | addImplement => exact bind (addImplement h arg) fun _ => pure _
  | setTraits => exact bind (setTraits h arg) fun _ => pure _
  | addTrait => exact bind (addTrait h arg none) fun _ => pure _
  | setConstants => exact bind (setConstants h arg) fun _ => pure _
  | setProperties => exact bind (setProperties h arg) fun _ => pure _
  | setMethods => exact bind (setMethods h arg) fun _ => pure _
  | getConstant | getProperty | getMethod => exact bind (lookup _ _ arg) fun _ => pure _
  | addProperty => exact addProperty h arg .null
  | addMethod => exact addMethod h arg
  | checkMemberName => exact bind (ofExcept _) fun _ => pure _
  | checkTypeNames => exact bind (checkTypeNames arg) fun _ => pure _
  | listNames => exact bind (nameItems arg) fun _ => newNode _
  | _ => exact throw _

theorem askClass (h : Handle .classType) {request : Request} {args : List Value}
    (comments : request = .setComment → ∀ arg, args = [arg] → arg.IsComment) :
    Keeps Commented (askClass h request args) := by
  unfold Op.askClass
  split
  next => exact tellClass h request
  next arg => exact askClassWith h fun same => comments same arg rfl
  next name value =>
    cases request with
    | addTrait => exact bind (addTrait h name (some value)) fun _ => pure _
    | addConstant => exact addConstant h name value
    | addProperty => exact addProperty h name value
    | _ => exact throw _
  next => exact throw _

theorem askMethod (h : Handle .method) (request : Request) (args : List Value) :
    Keeps Commented (askMethod h request args) := by
  refine get fun store _ => ?_
  simp only
  split
  · exact bind (addBody h _) fun _ => pure _
  · exact addParameter h _ none
  · exact addParameter h _ (some _)
  · exact newNode _
  · exact bind (setReturnType _ _ _) fun _ => pure _
  · exact bind (setReturnType _ _ _) fun _ => pure _
  · exact pure _
  · exact throw _

theorem askMember (type : MemberType) (target : Value) (request : Request)
    (args : List Value) : Keeps Commented (askMember type target request args) := by
  unfold Op.askMember
  split
  next field assigned =>
    split
    · exact bind (assign target field _) fun _ => pure _
    · split
      · exact bind (assign target field _) fun _ => pure _
      · exact throw _
    · exact throw _
  next =>
    split
    · exact checkName _
    · exact bind (setDefault target _) fun _ => pure _
    · exact checkValue _
    · exact throw _
    · exact checkValue _
    · exact checkValue _
    · exact bind (fieldOf target .name) fun _ => pure _
    · exact bind (addComment target _) fun _ => pure _
    · exact render _ _ _
    · exact render _ _ _
    · refine get fun store _ => ?_
      split
      · exact throw _
      · exact render _ _ _
    · split
      · exact askMethod _ request args
      · exact throw _

theorem askScope (h : Handle .scope) (request : Request) (args : List Value) :
    Keeps Commented (askScope h request args) := by
  unfold Op.askScope
  simp only
  split
  · exact bind (addUse h _ _) fun _ => pure _
  · exact bind (addUse h _ _) fun _ => pure _
  · exact get fun _ _ => newNode _
  · exact shorten h _
  · exact throw _

theorem askMap (h : Handle .map) (request : Request) (args : List Value) :
    Keeps Commented (askMap h request args) := by
  refine get fun store _ => ?_
  simp only
  split
  · exact upsert h _ _
  · exact find h _
  · exact bind (replace h _) fun _ => pure _
  · exact bind (hasKey h _) fun _ => pure _
  · exact pure _
  · exact pure _
  · exact newNode _
  · exact newNode _
  · exact throw _

/-- An object that is asked leaves every declaration with a comment, unless it is a declaration
and given something else as one. -/
theorem ask {target : Value} {request : Request} {args : List Value}
    (comments : ∀ h, target = .classType h → request = .setComment → ∀ arg, args = [arg] →
      arg.IsComment) : Keeps Commented (ask target request args) := by
  unfold Op.ask
  split
  · exact text target
  · exact inspect target
  · cases target with
    | classType h => exact askClass h (comments h rfl)
    | constant h => exact askMember .constant _ request args
    | property h => exact askMember .property _ request args
    | parameter h => exact askMember .parameter _ request args
    | method h => exact askMember .method _ request args
    | scope h => exact askScope h request args
    | map h => exact askMap h request args
    | shortener h =>
        simp only [Op.askObject]
        split
        · exact lookUp h _
        · exact throw _
    | supertypes s =>
        simp only [Op.askObject]
        split
        · exact newNode _
        · exact throw _
    | _ => exact throw _

theorem readAttribute (target : Value) (label : String) :
    Keeps Commented (readAttribute target label) := by
  refine get fun store _ => ?_
  split
  · exact pure _
  · exact pure _
  · exact newNode _
  · exact pure _
  · exact pure _
  · refine bind (mapOption (fieldOf target) _) fun field =>
      bind (noteOf target label) fun note => ?_
    split
    · exact pure _
    · exact pure _
    · exact throw _

end Keeps

end Op

/-! ## Steps -/

namespace Action

open Op

variable {P : Store → Prop} [Spelled P]

theorem evalArgs_keeps (bindings : Names) (args : List Term) :
    Keeps P (evalArgs bindings args) :=
  Keeps.map Prod.fst (Term.evalAll_keeps bindings args [])

theorem evalArg_keeps (bindings : Names) (arg : Term) : Keeps P (evalArg bindings arg) :=
  Keeps.map Prod.fst (Term.eval_keeps bindings arg [])

theorem optional_keeps {P : Store → Prop} (bindings : Names) (name : Option String) :
    Keeps P (optional bindings name) := by
  cases name with
  | none => exact Keeps.pure _
  | some name => exact Keeps.findName bindings name

end Action

/-- Whether the step may give a declaration another comment. -/
def Step.setsComment (step : Step) : Bool :=
  match step.action with
  | .ask _ (some .setComment) _ => true
  | _ => false

/-- The step gives a declaration nothing but a text or null as its comment. -/
def Session.Comments (session : Session) (step : Step) : Prop :=
  ∀ {target args h value after}, step.action = .ask target (some .setComment) args →
    session.bindings.find? target = some (.classType h) →
      (Action.evalArgs session.bindings args).run session.store = .ok [value] after →
        value.IsComment

/-- Looking a variable up changes nothing. -/
theorem Names.eq_of_find {names : Names} {name : String} {store after : Store} {value : Value}
    (found : (names.find name).run store = .ok value after) :
    names.find? name = some value ∧ store = after := by
  unfold Names.find at found
  split at found
  next bound =>
    cases found
    exact ⟨bound, rfl⟩
  next => cases found

namespace Session

open Op

/-- An action leaves every declaration with a comment. -/
theorem leaves_run {session : Session} {step : Step} (comments : session.Comments step)
    (kept : Commented session.store) :
    Leaves Commented ((step.action.run session.bindings).run session.store) := by
  cases action : step.action with
  | newScope name => exact (Keeps.bind (Keeps.newScope name) fun _ => Keeps.pure _) _ kept
  | newClass name scope =>
      exact Keeps.bind (Action.evalArg_keeps _ name) (fun name =>
        Keeps.bind (Action.optional_keeps _ scope) fun scope => Keeps.newClass name scope) _ kept
  | newMember type given =>
      exact Keeps.bind (Action.evalArgs_keeps _ _) (fun _ => Keeps.newMember type _) _ kept
  | newMap kind => exact Keeps.newMap kind _ kept
  | newShortener table => exact Keeps.newShortener table _ kept
  | drop name => exact kept
  | ask target request args =>
      refine Leaves.bind (Keeps.findName _ target _ kept) fun object after found kept => ?_
      obtain ⟨bound, rfl⟩ := Names.eq_of_find found
      refine Leaves.bind (Action.evalArgs_keeps _ args _ kept)
        fun values between evaluated kept => ?_
      -- Of all requests only one sets a comment, to the value that is given with it.
      cases request with
      | none => exact kept
      | some request =>
          refine Keeps.ask ?_ _ kept
          rintro h rfl rfl value rfl
          exact comments action bound evaluated
  | assign target label value =>
      exact Keeps.bind (Keeps.findName _ target) (fun object =>
        Keeps.bind (Action.evalArg_keeps _ value) fun value =>
          Keeps.bind (Keeps.assignNamed object label value) fun _ => Keeps.pure _) _ kept
  | read target label =>
      exact Keeps.bind (Keeps.findName _ target)
        (fun object => Keeps.readAttribute object label) _ kept
  | text target =>
      exact Keeps.bind (Keeps.findName _ target) (fun object => Keeps.text object) _ kept
  | inspect target =>
      exact Keeps.bind (Keeps.findName _ target) (fun object => Keeps.inspect object) _ kept
  | size target =>
      exact Keeps.bind (Keeps.findName _ target)
        (fun object => Keeps.bind (Keeps.sizeOf object) fun _ => Keeps.pure _) _ kept
  | truth target =>
      exact Keeps.bind (Keeps.findName _ target)
        (fun _ => Keeps.get fun _ _ => Keeps.pure _) _ kept
  | items target =>
      exact Keeps.bind (Keeps.findName _ target)
        (fun object => Keeps.bind (Keeps.items object) fun _ => Keeps.newNode _) _ kept
  | contains target key =>
      refine Keeps.bind (Keeps.findName _ target) (fun object =>
        Keeps.bind (Action.evalArg_keeps _ key) fun key => ?_) _ kept
      cases object with
      | map h => exact Keeps.bind (Keeps.hasKey h key) fun _ => Keeps.pure _
      | _ => exact Keeps.throw _
  | render target shortener layout =>
      exact Keeps.bind (Keeps.findName _ target) (fun object =>
        Keeps.bind (Action.optional_keeps _ shortener) fun shortener =>
          Keeps.render object shortener layout) _ kept
  | renderParameters target shortener layout =>
      exact Keeps.bind (Keeps.findName _ target) (fun object =>
        Keeps.bind (Action.optional_keeps _ shortener) fun shortener =>
          Keeps.renderParameters object shortener layout) _ kept

theorem commented_release {store : Store} (kept : Commented store) (values : List Value) :
    Commented (store.release values) := by
  refine Arena.forall_get_map ClassObject.Commented kept fun object commented => ?_
  unfold Store.releaseLink
  split
  · exact commented
  · split
    · exact commented
    · exact commented

/-- Behind its action a step does nothing but cut links to namespaces. -/
theorem holds_run {P : Store → Prop} {session : Session} {step : Step}
    (released : ∀ store values, P store → P (store.release values))
    (left : Op.Leaves P ((step.action.run session.bindings).run session.store)) :
    P (session.run step).1.store := by
  unfold Session.run
  cases run : (step.action.run session.bindings).run session.store with
  | ok result store =>
      rw [run] at left
      exact released _ _ (released _ _ left)
  | error fault store =>
      rw [run] at left
      exact released _ _ (released _ _ left)

theorem commented_run {session : Session} {step : Step} (comments : session.Comments step)
    (kept : Commented session.store) : Commented (session.run step).1.store :=
  holds_run (fun _ values commented => commented_release commented values)
    (leaves_run comments kept)

/-- The sessions that steps lead to, successful and refused ones, as long as declarations are
given nothing but texts and null as comments. -/
inductive Reachable : Session → Prop
  | start : Reachable .start
  | run {session : Session} {step : Step} (before : Reachable session)
      (comments : session.Comments step) : Reachable (session.run step).1

/-- Steps that set no comment lead on. -/
theorem Reachable.after {session : Session} (reachable : session.Reachable) {steps : List Step}
    (uncommented : steps.all (!·.setsComment) = true) : (session.after steps).Reachable := by
  induction steps generalizing session with
  | nil => exact reachable
  | cons step steps ih =>
      rw [List.all_cons, Bool.and_eq_true, Bool.not_eq_true'] at uncommented
      refine ih (.run reachable ?_) uncommented.2
      intro _ _ _ _ _ action
      rw [Step.setsComment, action] at uncommented
      cases uncommented.1

/-- Every comment that is ever reached can be read. -/
theorem Reachable.commented {session : Session} (reachable : session.Reachable) :
    Commented session.store := by
  induction reachable with
  | start => exact fun _ => .inl rfl
  | run _ comments ih => exact commented_run comments ih

end Session

end PhpDecl
