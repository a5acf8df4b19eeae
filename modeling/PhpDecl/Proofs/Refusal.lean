import PhpDecl.Proofs.Comments

/-!
# Refused requests change nothing

An operation on a declaration makes its checks first and its change last. Checking may go
through the fields of a member, which adds containers and nothing else, and a change is never
refused. So after a refusal every declaration and every member is what it was.
-/

namespace PhpDecl

/-- Nothing differs in the later store but that it may hold further containers. -/
def Store.GrowsTo (earlier later : Store) : Prop :=
  ∃ nodes : Graph, nodes.Extends earlier.nodes ∧ later = { earlier with nodes }

namespace Store.GrowsTo

theorem refl (store : Store) : store.GrowsTo store := ⟨store.nodes, .refl _, rfl⟩

theorem trans {first second third : Store} (before : first.GrowsTo second)
    (after : second.GrowsTo third) : first.GrowsTo third := by
  obtain ⟨nodes, more, rfl⟩ := before
  obtain ⟨others, evenMore, rfl⟩ := after
  exact ⟨others, evenMore.trans more, rfl⟩

end Store.GrowsTo

namespace Op

variable {α β : Type}

instance {start : Store} : Growing start.GrowsTo :=
  ⟨fun kept more => kept.trans ⟨_, more, rfl⟩⟩

/-- The operation does nothing but add containers, with a result or a refusal. -/
def Gathers (op : Op α) : Prop := ∀ start : Store, Keeps start.GrowsTo op

/-- The operation is never refused. -/
def Total (op : Op α) : Prop := ∀ store, ∃ a after, op.run store = .ok a after

/-- When the operation is refused, it has done nothing but add containers. -/
def Atomic (op : Op α) : Prop :=
  ∀ store fault after, op.run store = .error fault after → store.GrowsTo after

namespace Total

theorem pure (a : α) : Total (pure a) := fun store => ⟨a, store, rfl⟩

theorem set (store : Store) : Total (set store) := fun _ => ⟨⟨⟩, store, rfl⟩

theorem bind {op : Op α} {next : α → Op β} (first : Total op) (others : ∀ a, Total (next a)) :
    Total (op >>= next) := by
  intro store
  obtain ⟨a, between, run⟩ := first store
  obtain ⟨b, after, answer⟩ := others a between
  exact ⟨b, after, (run_bind_ok run).trans answer⟩

theorem changeClass (h : Handle .classType) (change : SharedDeclaration → SharedDeclaration) :
    Total (changeClass h change) := fun store => ⟨⟨⟩, store.changeClass h change, rfl⟩

end Total

namespace Atomic

theorem of_gathers {op : Op α} (gathers : Gathers op) : Atomic op := by
  intro store fault after refused
  have left := gathers store store (.refl store)
  rwa [refused] at left

theorem of_total {op : Op α} (total : Total op) : Atomic op := by
  intro store fault after refused
  obtain ⟨a, after, run⟩ := total store
  cases run.symm.trans refused

theorem throw (fault : Fault) : Atomic (throw fault : Op α) :=
  of_gathers fun _ => Keeps.throw fault

/-- Checks in front of an operation that is refused without a change. -/
theorem bind {op : Op α} {next : α → Op β} (first : Gathers op)
    (others : ∀ a, Atomic (next a)) : Atomic (op >>= next) := by
  intro store fault after refused
  have left := first store store (.refl store)
  cases run : op.run store with
  | ok a between =>
      rw [run] at left
      rw [run_bind_ok run] at refused
      exact left.trans (others a between fault after refused)
  | error cause between =>
      rw [run] at left
      rw [run_bind_error run] at refused
      cases refused
      exact left

/-- What cannot be refused after a result may stand behind an operation that can. -/
theorem andThen_of_run {op : Op α} {next : α → Op β} (first : Atomic op)
    (others : ∀ store a between, op.run store = .ok a between → Total (next a)) :
    Atomic (op >>= next) := by
  intro store fault after refused
  cases run : op.run store with
  | ok a between =>
      rw [run_bind_ok run] at refused
      obtain ⟨b, last, answer⟩ := others store a between run between
      cases answer.symm.trans refused
  | error cause between =>
      rw [run_bind_error run] at refused
      cases refused
      exact first store fault after run

/-- What cannot be refused may stand behind an operation that can. -/
theorem andThen {op : Op α} {next : α → Op β} (first : Atomic op)
    (others : ∀ a, Total (next a)) : Atomic (op >>= next) :=
  first.andThen_of_run fun _ a _ _ => others a

theorem get {next : Store → Op β} (others : ∀ store, Atomic (next store)) :
    Atomic (get >>= next) := fun store => others store store

/-- A result that is checked, in front of an operation that is refused without a change. -/
theorem ofExcept {result : Except Fault α} {next : α → Op β} (others : ∀ a, Atomic (next a)) :
    Atomic (ofExcept result >>= next) := bind (fun _ => Keeps.ofExcept result) others

theorem changeClass (h : Handle .classType) (change : SharedDeclaration → SharedDeclaration) :
    Atomic (changeClass h change) := of_total (.changeClass h change)

/-! ## The head of a declaration -/

variable (h : Handle .classType)

theorem setClassName (name : Value) : Atomic (setClassName h name) :=
  ofExcept fun _ => changeClass h _

theorem setKind (kind : Value) : Atomic (setKind h kind) := by
  unfold Op.setKind
  split
  · exact changeClass h _
  · exact throw _

theorem addClassComment (line : Value) : Atomic (addClassComment h line) :=
  get fun _ => ofExcept fun _ => bind (fun _ => Keeps.addedText line) fun _ => changeClass h _

theorem setExtends (names : Value) : Atomic (setExtends h names) := by
  refine bind (fun _ => Keeps.node? names) fun node => ?_
  split
  · exact ofExcept fun _ => changeClass h _
  · exact ofExcept fun _ => changeClass h _
  · exact ofExcept fun _ => changeClass h _
  · exact throw _

theorem addExtend (name : Value) : Atomic (addExtend h name) := ofExcept fun _ => changeClass h _

theorem setImplements (names : Value) : Atomic (setImplements h names) :=
  bind (fun _ => Keeps.nameItems names) fun _ => ofExcept fun _ => changeClass h _

theorem addImplement (name : Value) : Atomic (addImplement h name) :=
  ofExcept fun _ => changeClass h _

theorem setTraits (names : Value) : Atomic (setTraits h names) :=
  bind (fun _ => Keeps.nameItems names) fun _ => ofExcept fun _ => changeClass h _

theorem addTrait (name : Value) (resolutions : Option Value) :
    Atomic (addTrait h name resolutions) := by
  refine ofExcept fun name => ?_
  -- The directives are gone through before they are checked, each of them before the change.
  have checked (words : List Value) : Atomic (MonadStateOf.get >>= fun store : Store =>
      Op.ofExcept (words.mapM store.resolution) >>= fun resolutions =>
        Op.changeClass h fun d => { d with traits := d.traits.upsert name resolutions }) :=
    get fun _ => ofExcept fun _ => changeClass h _
  simp only
  split
  · exact bind (fun _ => Keeps.pure []) checked
  · exact bind (fun _ => Keeps.throw _) checked
  · exact bind (fun _ => Keeps.items _) checked

/-! ## The members of a declaration -/

theorem setConstants (constants : Value) : Atomic (setConstants h constants) :=
  bind (fun _ => Keeps.keyedItems constants) fun _ => get fun _ => ofExcept fun _ =>
    of_total (.set _)

theorem addConstant (name value : Value) : Atomic (addConstant h name value) :=
  get fun _ => ofExcept fun _ => ofExcept fun _ => of_total (.bind (.set _) fun _ => .pure _)

theorem setProperties (properties : Value) : Atomic (setProperties h properties) :=
  bind (fun _ => Keeps.valueItems properties) fun _ => get fun _ => ofExcept fun _ =>
    changeClass h _

theorem addProperty (name value : Value) : Atomic (addProperty h name value) :=
  get fun _ => ofExcept fun _ => ofExcept fun _ => of_total (.bind (.set _) fun _ => .pure _)

theorem setMethods (methods : Value) : Atomic (setMethods h methods) :=
  bind (fun _ => Keeps.valueItems methods) fun _ => get fun _ => ofExcept fun _ =>
    changeClass h _

theorem addMethod (name : Value) : Atomic (addMethod h name) :=
  get fun _ => ofExcept fun _ => of_total (.bind (.set _) fun _ => .pure _)

/-! ## Requests -/

theorem tellClass (request : Request) : Atomic (tellClass h request) := by
  refine get fun store => ?_
  cases request with
  | setFinal | setAbstract => exact of_total (.bind (.changeClass h _) fun _ => .pure _)
  | getName | getType | isFinal | isAbstract | getComment | getNamespace =>
      exact of_total (.pure _)
  | getExtends =>
      simp only
      split
      · exact of_total (.pure _)
      · exact of_gathers fun _ => Keeps.newNode _
  | getImplements | getTraits | getConstants | getProperties | getMethods =>
      exact of_gathers fun _ => Keeps.newNode _
  | getTraitResolutions => exact of_gathers fun _ => Keeps.resolutionDict _
  | _ => exact throw _

theorem askClassWith (request : Request) (arg : Value) : Atomic (askClassWith h request arg) := by
  refine get fun store => ?_
  have self (_ : Unit) : Total (Pure.pure (Value.classType h) : Op Value) := .pure _
  cases request with
  | setName => exact (setClassName h arg).andThen self
  | setType => exact (setKind h arg).andThen self
  | setFinal | setAbstract | setComment => exact (changeClass h _).andThen self
  | addComment => exact (addClassComment h arg).andThen self
  | setExtends => exact (setExtends h arg).andThen self
  | addExtend => exact (addExtend h arg).andThen self
  | setImplements => exact (setImplements h arg).andThen self
  | addImplement => exact (addImplement h arg).andThen self
  | setTraits => exact (setTraits h arg).andThen self
  | addTrait => exact (addTrait h arg none).andThen self
  | setConstants => exact (setConstants h arg).andThen self
  | setProperties => exact (setProperties h arg).andThen self
  | setMethods => exact (setMethods h arg).andThen self
  | getConstant | getProperty | getMethod =>
      exact bind (fun _ => Keeps.lookup _ _ arg) fun _ => of_total (.pure _)
  | addProperty => exact addProperty h arg .null
  | addMethod => exact addMethod h arg
  | checkMemberName => exact ofExcept fun _ => of_total (.pure _)
  | checkTypeNames => exact bind (fun _ => Keeps.checkTypeNames arg) fun _ => of_total (.pure _)
  | listNames =>
      exact bind (fun _ => Keeps.nameItems arg) fun _ => of_gathers fun _ => Keeps.newNode _
  | _ => exact throw _

theorem askClass (request : Request) (args : List Value) : Atomic (askClass h request args) := by
  unfold Op.askClass
  split
  next => exact tellClass h request
  next arg => exact askClassWith h request arg
  next name value =>
    cases request with
    | addTrait => exact (addTrait h name (some value)).andThen fun _ => .pure _
    | addConstant => exact addConstant h name value
    | addProperty => exact addProperty h name value
    | _ => exact throw _
  next => exact throw _

theorem ask (request : Request) (args : List Value) : Atomic (ask (.classType h) request args) := by
  unfold Op.ask
  split
  · exact get fun _ => ofExcept fun _ => of_total (.pure _)
  · exact get fun _ => of_total (.pure _)
  · exact askClass h request args

end Atomic

/-- Whatever a declaration is asked and with whatever values, a refusal leaves all objects as they
were: every declaration with its head, its collections and their order, and every member with all
its fields. -/
theorem growsTo_of_ask_refused {store after : Store} {h : Handle .classType} {request : Request}
    {args : List Value} {fault : Fault}
    (refused : (ask (.classType h) request args).run store = .error fault after) :
    store.GrowsTo after := Atomic.ask h request args store fault after refused

end Op

namespace Session

/-- A store with a class of one constant, and a dictionary of which the second key is no name. -/
def offered : Store :=
  let store := (start.after
    [⟨.newClass (.atom (.word (.text "Shop"))) none, some "shop", .prompt⟩,
      ⟨.ask "shop" (some .addConstant) [.atom (.word (.text "OPENS")), .atom (.int 9)], none,
        .prompt⟩]).store
  { store with
    nodes := store.nodes.push
      (.dict [(.text "CLOSES", .atom (.int 17)), (.text "2ND_SHIFT", .atom (.int 20))]) }

theorem growsTo_offered :
    ∃ after, (Op.ask (.classType ⟨0⟩) .setConstants [.node ⟨0⟩]).run offered =
      .error (.invalidName .member (.text "2ND_SHIFT")) after ∧ offered.GrowsTo after := by
  have refused : (Op.ask (.classType ⟨0⟩) .setConstants [.node ⟨0⟩]).run offered =
      .error (.invalidName .member (.text "2ND_SHIFT")) offered := by
    with_unfolding_all rfl
  exact ⟨offered, refused, Op.growsTo_of_ask_refused refused⟩

end Session

end PhpDecl
