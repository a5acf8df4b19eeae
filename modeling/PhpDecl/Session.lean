import PhpDecl.Request
import PhpDecl.Session.Term
import PhpDecl.Store.Shown

/-!
# Sessions

A session is a store and the variables that lead into it. It runs one step at a time; a step
that is refused ends nothing, and its variable keeps what it had.

A declaration does not hold the namespace it was made in: the namespace is gone as soon as
nothing leads to it. A variable does that is bound to the namespace itself or to a container, a
map, a declaration or a member that keeps it. So do objects that keep each other in a circle, with
no variable that leads to them, until they are collected; when that is, nothing in a session says,
and a step comes with what is left of such objects by then. `Store.release` cuts the links to
namespaces that are gone, so that a link once cut stays cut. It is done twice a step: when the
result is there and may still lead to a namespace, and again when the variables are as the step
leaves them.
-/

namespace PhpDecl

inductive Action
  | newScope (name : String)
  | newClass (name : Term) (scope : Option String)
  | newMember (type : MemberType) (given : List (String × Term))
  | newMap (kind : String)
  | newShortener (table : List (String × String))
  | drop (variableName : String)
  | ask (target : String) (request : Option Request) (args : List Term)
  | assign (target label : String) (value : Term)
  | read (target label : String)
  | text (target : String)
  | inspect (target : String)
  | size (target : String)
  | truth (target : String)
  | items (target : String)
  | contains (target : String) (key : Term)
  | render (target : String) (shortener : Option String) (layout : Layout)
  | renderParameters (target : String) (shortener : Option String) (layout : Layout)

/-- Which objects are left of those that keep each other in circles: when the result of a step is
there, and after the step, when no more of them are left. -/
structure Collector where
  during : Value → Bool
  after : Value → Bool
  during_of_after : ∀ object, after object = true → during object = true

/-- The collector that leaves none. -/
def Collector.prompt : Collector := ⟨fun _ => false, fun _ => false, fun _ => id⟩

/-- A step: an action, the variable that its result is bound to, and what is collected by then. -/
structure Step where
  action : Action
  bindTo : Option String
  collector : Collector

/-- A session. -/
structure Session where
  store : Store
  bindings : Names

/-- What a step answers. -/
structure Answer where
  /-- The result, or the reason why there is none. -/
  result : Except Fault Value
  /-- The objects as they are when the result is there, before it is bound to a variable. -/
  store : Store
  target : Option Value
  /-- The object that the variable of the target leads to after the step, whose state is told. -/
  told : Option Value

namespace Action

def evalArgs (bindings : Names) (args : List Term) : Op (List Value) :=
  (Term.evalAll bindings args).run' []

def evalArg (bindings : Names) (arg : Term) : Op Value := (arg.eval bindings).run' []

/-- The value of a variable, or null when none is named. -/
def optional (bindings : Names) : Option String → Op Value
  | none => pure .null
  | some name => bindings.find name

/-- Do what an action says. The target is looked up before anything else. -/
def run (bindings : Names) : Action → Op Value
  | .newScope name => return .scope (← Op.newScope name)
  | .newClass name scope => do
      let name ← evalArg bindings name
      Op.newClass name (← optional bindings scope)
  | .newMember type given => do
      let values ← evalArgs bindings (given.map Prod.snd)
      Op.newMember type (.ofPairs ((given.map Prod.fst).zip values))
  | .newMap kind => Op.newMap kind
  | .newShortener table => Op.newShortener table
  | .drop _ => return .null
  | .ask target request args => do
      let target ← bindings.find target
      let args ← evalArgs bindings args
      match request with
      | some request => Op.ask target request args
      | none => throw .unanswered
  | .assign target label value => do
      let target ← bindings.find target
      Op.assignNamed target label (← evalArg bindings value)
      return .null
  | .read target label => do Op.readAttribute (← bindings.find target) label
  | .text target => do Op.text (← bindings.find target)
  | .inspect target => do Op.inspect (← bindings.find target)
  | .size target => do return .atom (.int (← Op.sizeOf (← bindings.find target)))
  | .truth target => do
      let target ← bindings.find target
      return .bool ((← get).truth target)
  | .items target => do Op.newNode (.list (← Op.items (← bindings.find target)))
  | .contains target key => do
      let target ← bindings.find target
      let key ← evalArg bindings key
      match target with
      | .map h => return .bool (← Op.hasKey h key)
      | _ => throw .unanswered
  | .render target shortener layout => do
      let target ← bindings.find target
      Op.render target (← optional bindings shortener) layout
  | .renderParameters target shortener layout => do
      let target ← bindings.find target
      Op.renderParameters target (← optional bindings shortener) layout

/-- The variable of the target whose state is told with the answer. -/
def told : Action → Option String
  | .ask target _ _ => some target
  | .assign target _ _ => some target
  | _ => none

end Action

namespace Store

def notesOf (store : Store) (member : Value) : List Value :=
  (store.notes.filter fun note => note.1.1 == member).map Prod.snd

/-- The values that a value keeps, as far as they may lead on. -/
def kept (store : Store) : Value → List Value
  | .node h => (store.nodes.get h).parts.filter Value.leadsOn
  | .map h => (Entries.parts (store.maps.get h).items).filter Value.leadsOn
  | .classType h =>
      let d := (store.classes.get h).declaration
      [d.final, d.abstract, d.comment].filter Value.leadsOn ++
        d.constants.values.map .constant ++ d.properties.values.map .property ++
        d.methods.values.map .method
  | .method h =>
      (store.methods.get h).parameters.values.map .parameter ++ store.notesOf (.method h)
  | .constant h => store.notesOf (.constant h)
  | .property h => store.notesOf (.property h)
  | .parameter h => store.notesOf (.parameter h)
  | _ => []

/-- Add what the values keep, and what that keeps, up to a depth. -/
def keptWithin (store : Store) : Nat → List Value → List Value
  | 0, values => values
  | depth + 1, values =>
      -- Once nothing new is reached, nothing ever will be.
      let grown := (values ++ values.flatMap store.kept).eraseDups
      if grown.length ≤ values.length then values else store.keptWithin depth grown

def keepers (store : Store) : Nat :=
  store.nodes.size + store.maps.size + store.classes.size + store.constants.size +
    store.properties.size + store.parameters.size + store.methods.size

/-- All objects that may keep anything. -/
def objects (store : Store) : List Value :=
  (List.range store.nodes.size).map (fun i => .node ⟨i⟩) ++
    (List.range store.maps.size).map (fun i => .map ⟨i⟩) ++
    (List.range store.classes.size).map (fun i => .classType ⟨i⟩) ++
    (List.range store.constants.size).map (fun i => .constant ⟨i⟩) ++
    (List.range store.properties.size).map (fun i => .property ⟨i⟩) ++
    (List.range store.parameters.size).map (fun i => .parameter ⟨i⟩) ++
    (List.range store.methods.size).map (fun i => .method ⟨i⟩)

/-- Everything that values lead to. A shortest way passes no keeper twice. -/
def keptBy (store : Store) (values : List Value) : List Value :=
  store.keptWithin (store.keepers + 1) values.eraseDups

/-- The objects that are left of those that lead to themselves. -/
def circles (store : Store) (left : Value → Bool) : List Value :=
  store.objects.filter fun object =>
    left object && (store.keptBy (store.kept object)).contains object

/-- Whether values lead to a namespace. -/
def leadTo (store : Store) (values : List Value) (scope : Handle .scope) : Bool :=
  values.contains (.scope scope) || (store.keptBy values).contains (.scope scope)

/-- Cut a link to a namespace that the values do not lead to. -/
def releaseLink (store : Store) (values : List Value) (object : ClassObject) : ClassObject :=
  match object.scope with
  | none => object
  | some scope => if store.leadTo values scope then object else { object with scope := none }

/-- The store without the links of declarations to namespaces that no value leads to. -/
def release (store : Store) (values : List Value) : Store :=
  { store with classes := ⟨store.classes.slots.map (store.releaseLink values)⟩ }

end Store

namespace Session

/-- A session without objects. -/
def start : Session := ⟨.empty, []⟩

/-- The variables after a step: a result is bound, a dropped variable is gone. -/
def bound (bindings : Names) (step : Step) (result : Value) : Names :=
  let left := match step.action with
    | .drop variableName => bindings.filter (·.1 != variableName)
    | _ => bindings
  match step.bindTo with
  | none => left
  | some variableName => (variableName, result) :: left.filter (·.1 != variableName)

def run (session : Session) (step : Step) : Session × Answer :=
  let values := session.bindings.map Prod.snd
  let target := step.action.told.bind session.bindings.find?
  match (step.action.run session.bindings).run session.store with
  | .ok result store =>
      -- Until the result is bound it keeps what it leads to; the binding may let something go.
      let store := store.release (result :: values ++ store.circles step.collector.during)
      let bindings := bound session.bindings step result
      (⟨store.release (bindings.map Prod.snd ++ store.circles step.collector.after), bindings⟩,
        ⟨.ok result, store, target, step.action.told.bind bindings.find?⟩)
  | .error fault store =>
      let store := store.release (values ++ store.circles step.collector.during)
      (⟨store.release (values ++ store.circles step.collector.after), session.bindings⟩,
        ⟨.error fault, store, target, target⟩)

/-- Run steps one after the other: each answer, and the session after it. -/
def runAll (session : Session) : List Step → List (Session × Answer)
  | [] => []
  | step :: rest =>
      let after := session.run step
      after :: runAll after.1 rest

def after (session : Session) (steps : List Step) : Session :=
  steps.foldl (fun session step => (session.run step).1) session

end Session

end PhpDecl
