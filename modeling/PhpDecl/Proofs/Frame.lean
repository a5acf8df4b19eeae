import PhpDecl.Proofs.Embed
import PhpDecl.Proofs.Keeps
import PhpDecl.Store.Maps
import PhpDecl.Store.Scopes

/-!
# Operations that leave declarations alone

Members, maps, namespaces and shorteners are made and changed without any declaration being
touched: whatever holds of the declarations, these operations keep. Operations that only go
through values do no more than add containers, and keep every property that these leave alone.
-/

namespace PhpDecl.Op

/-- A property of stores that looks at nothing but the declarations. -/
abbrev OnClasses (Q : Arena .classType ClassObject → Prop) : Store → Prop :=
  fun store => Q store.classes

/-- A property of stores that is kept when there are more containers. -/
class Growing (P : Store → Prop) : Prop where
  grow : ∀ {store : Store} {nodes : Graph}, P store → nodes.Extends store.nodes →
    P { store with nodes }

instance {Q : Arena .classType ClassObject → Prop} : Growing (OnClasses Q) :=
  ⟨fun kept _ => kept⟩

namespace Keeps

variable {α : Type} {Q : Arena .classType ClassObject → Prop} {P : Store → Prop} [Growing P]

/-! ## Values -/

theorem newNode (node : Node) : Keeps P (newNode node) :=
  get fun _ kept => bind (set (Growing.grow kept (.push _ node))) fun _ => pure _

theorem embed (literal : Literal) : Keeps P (embed literal) :=
  get fun store kept =>
    bind (set (Growing.grow kept (store.nodes.unfold_embed literal).1)) fun _ => pure _

theorem node? {P : Store → Prop} (value : Value) : Keeps P (node? value) := by
  cases value with
  | node h => exact get fun _ _ => pure _
  | _ => exact pure none

theorem checkKey {P : Store → Prop} (value : Value) : Keeps P (checkKey value) := by
  refine get fun store _ => ?_
  split
  · exact throw _
  · exact pure _

theorem addedText {P : Store → Prop} (value : Value) : Keeps P (addedText value) := by
  unfold Op.addedText
  split
  · exact pure _
  · exact get fun _ _ => throw _

/-! ## Members -/

theorem ofFields {P : Store → Prop} (result : Except (List FieldError) α) :
    Keeps P (ofFields result) := by
  cases result with
  | ok a => exact pure a
  | error errors => exact throw _

theorem newMember (type : MemberType) (given : Given) :
    Keeps (OnClasses Q) (newMember type given) := by
  refine get fun store kept => ?_
  cases type with
  | constant => exact bind (ofFields _) fun _ => bind (set kept) fun _ => pure _
  | property => exact bind (ofFields _) fun _ => bind (set kept) fun _ => pure _
  | parameter => exact bind (ofFields _) fun _ => bind (set kept) fun _ => pure _
  | method => exact bind (ofFields _) fun _ => bind (set kept) fun _ => pure _

theorem assign (target : Value) (field : Field) (value : Value) :
    Keeps (OnClasses Q) (assign target field value) := by
  refine get fun store kept => ?_
  cases target with
  | constant h => exact bind (ofFields _) fun _ => set kept
  | property h => exact bind (ofFields _) fun _ => set kept
  | parameter h => exact bind (ofFields _) fun _ => set kept
  | method h => exact bind (ofFields _) fun _ => set kept
  | _ => exact throw _

theorem annotate (target : Value) (label : String) (value : Value) :
    Keeps (OnClasses Q) (annotate target label value) := by
  cases target with
  | constant h => exact modify fun _ kept => kept
  | property h => exact modify fun _ kept => kept
  | parameter h => exact modify fun _ kept => kept
  | method h => exact modify fun _ kept => kept
  | _ => exact throw _

theorem noteOf {P : Store → Prop} (target : Value) (label : String) :
    Keeps P (noteOf target label) := get fun _ _ => pure _

theorem assignNamed (target : Value) (label : String) (value : Value) :
    Keeps (OnClasses Q) (assignNamed target label value) := by
  unfold Op.assignNamed
  split
  · exact annotate target label value
  · split
    · exact assign target _ value
    · exact throw _

theorem commentOf {P : Store → Prop} (target : Value) : Keeps P (commentOf target) := by
  refine get fun store _ => ?_
  cases target with
  | constant h => exact pure _
  | property h => exact pure _
  | method h => exact pure _
  | _ => exact throw _

theorem addComment (target line : Value) : Keeps (OnClasses Q) (addComment target line) :=
  bind (commentOf target) fun _ => bind (addedText line) fun _ => assign target .comment _

theorem addBody (h : Handle .method) (code : Value) : Keeps (OnClasses Q) (addBody h code) :=
  get fun _ _ => bind (addedText code) fun _ => assign (.method h) .body _

theorem setDefault (target value : Value) : Keeps (OnClasses Q) (setDefault target value) :=
  bind (assign target .defaultValue value) fun _ => assign target .hasDefaultValue _

theorem setReturnType (target type nullable : Value) :
    Keeps (OnClasses Q) (setReturnType target type nullable) :=
  bind (assign target .returnType type) fun _ => assign target .returnNullable nullable

theorem addParameter (h : Handle .method) (name : Value) (default : Option Value) :
    Keeps (OnClasses Q) (addParameter h name default) :=
  get fun _ kept => bind (ofFields _) fun _ => bind (set kept) fun _ => pure _

theorem fieldOf (target : Value) (field : Field) : Keeps P (fieldOf target field) := by
  refine get fun store _ => ?_
  cases target with
  | constant h =>
      cases field with
      | value => exact bind (embed _) fun _ => pure _
      | _ => exact pure _
  | property h =>
      cases field with
      | value => exact bind (embed _) fun _ => pure _
      | _ => exact pure _
  | parameter h =>
      cases field with
      | defaultValue => exact bind (embed _) fun _ => pure _
      | _ => exact pure _
  | method h =>
      cases field with
      | parameters => exact bind (newNode _) fun _ => pure _
      | _ => exact pure _
  | _ => exact pure _

theorem fieldPairs (target : Value) (fields : List Field) :
    Keeps P (fieldPairs target fields) := by
  refine bind (mapM (fun field => bind (fieldOf target field) fun value => ?_) fields)
    fun _ => pure _
  cases value with
  | none => exact pure _
  | some value => exact bind (newNode _) fun _ => pure _

theorem items (value : Value) : Keeps P (items value) := by
  refine get fun store _ => ?_
  cases value with
  | node h =>
      cases content : store.nodes.get h with
      | _ => simpa only [content] using pure _
  | atom a =>
      cases a with
      | word w => exact pure _
      | _ => exact throw _
  | bytes content => exact pure _
  | map h => exact pure _
  | constant h => exact fieldPairs _ _
  | property h => exact fieldPairs _ _
  | parameter h => exact fieldPairs _ _
  | method h => exact fieldPairs _ _
  | _ => exact throw _

/-! ## Maps -/

theorem newMap (kind : String) : Keeps (OnClasses Q) (newMap kind) :=
  get fun _ kept => bind (set kept) fun _ => pure _

theorem changeMap (h : Handle .map) (change : List (Value × Value) → List (Value × Value)) :
    Keeps (OnClasses Q) (changeMap h change) := modify fun _ kept => kept

theorem upsert (h : Handle .map) (key value : Value) : Keeps (OnClasses Q) (upsert h key value) :=
  bind (checkKey key) fun _ => get fun _ _ => bind (changeMap h _) fun _ => pure _

theorem find {P : Store → Prop} (h : Handle .map) (key : Value) : Keeps P (find h key) := by
  refine bind (checkKey key) fun _ => get fun store _ => ?_
  simp only
  split
  · exact pure _
  · exact refuse _

theorem hasKey {P : Store → Prop} (h : Handle .map) (key : Value) : Keeps P (hasKey h key) :=
  bind (checkKey key) fun _ => get fun _ _ => pure _

theorem pairAt (position : Nat) (item : Value) : Keeps (OnClasses Q) (pairAt position item) := by
  refine bind (tryCatch (items item) fun _ => throw _) fun parts => ?_
  split
  · exact bind (checkKey _) fun _ => pure _
  · exact throw _

theorem pairsFrom (position : Nat) (items : List Value) :
    Keeps (OnClasses Q) (pairsFrom position items) := by
  induction items generalizing position with
  | nil => exact pure []
  | cons item rest ih =>
      exact bind (pairAt position item) fun _ => bind (ih (position + 1)) fun _ => pure _

theorem entriesOf (value : Value) : Keeps (OnClasses Q) (entriesOf value) := by
  refine bind (node? value) fun node => ?_
  split
  · exact pure _
  · exact bind (items value) fun _ => bind (pairsFrom 0 _) fun _ => get fun _ _ => pure _

theorem replace (h : Handle .map) (members : Value) : Keeps (OnClasses Q) (replace h members) :=
  bind (entriesOf members) fun _ => changeMap h _

/-! ## Namespaces and shorteners -/

theorem newScope (name : String) : Keeps (OnClasses Q) (newScope name) := by
  unfold Op.newScope
  split
  · exact get fun _ kept => bind (set kept) fun _ => pure _
  · exact throw _

theorem newShortener (table : List (String × String)) :
    Keeps (OnClasses Q) (newShortener table) :=
  get fun _ kept => bind (set kept) fun _ => pure _

theorem ofUse {P : Store → Prop} (result : Except Namespace.UseFault α) :
    Keeps P (ofUse result) := by
  cases result with
  | ok a => exact pure a
  | error fault => exact throw _

theorem addUse (h : Handle .scope) (name : String) (nick : Value) :
    Keeps (OnClasses Q) (addUse h name nick) := by
  refine get fun store _ => ?_
  simp only
  split
  · exact bind (ofUse _) fun _ => modify fun _ kept => kept
  · exact bind (ofUse _) fun _ => modify fun _ kept => kept
  · exact bind (ofUse _) fun _ => bind (refuse _) fun _ => modify fun _ kept => kept

theorem shorten {P : Store → Prop} (h : Handle .scope) (name : Value) :
    Keeps P (shorten h name) := by
  refine get fun store _ => ?_
  split
  · exact pure _
  · split
    · exact throw _
    · exact pure _

theorem lookUp {P : Store → Prop} (h : Handle .shortener) (name : Value) :
    Keeps P (lookUp h name) := by
  refine bind (checkKey name) fun _ => ?_
  split
  · exact get fun _ _ => pure _
  · exact pure _

end Keeps

end PhpDecl.Op
