import PhpDecl.Proofs.Arenas
import PhpDecl.Proofs.Comments
import PhpDecl.Proofs.Copies
import PhpDecl.Proofs.Entries
import PhpDecl.Proofs.Validators

/-!
# Tidy stores

In a tidy store everything that is kept anywhere was made, so that what is made never takes the
place of something else. A collection of members is in order when each member stands under the
name that it has. A store may be watched for a collection that is to stay in order: it does as
long as nothing is kept that was not made, members keep their names, and others come into the
collection under theirs.

A store may also be watched for values that are lost. Nothing but what is lost itself keeps them,
so that an operation that is given none of them comes upon none.
-/

namespace PhpDecl

/-- Two labels are one key when they are read as the same text. -/
theorem Label.toText_eq {a b : Label} (same : (a == b) = true) :
    a.word.toText = b.word.toText := Word.beq_iff.1 same

/-- A collection of members: those of a declaration, or the parameters of a method. -/
inductive Collection
  | constants (h : Handle .classType)
  | properties (h : Handle .classType)
  | methods (h : Handle .classType)
  | parameters (h : Handle .method)

/-- The flags and the comment of a declaration, which may be any values. -/
def SharedDeclaration.head (d : SharedDeclaration) : List Value := [d.final, d.abstract, d.comment]

/-- The values that a declaration keeps. -/
def SharedDeclaration.parts (d : SharedDeclaration) : List Value :=
  d.head ++ d.constants.values.map .constant ++
    d.properties.values.map .property ++ d.methods.values.map .method

theorem SharedDeclaration.forall_head {d : SharedDeclaration} {p : Value → Prop} :
    (∀ value ∈ d.head, p value) ↔ p d.final ∧ p d.abstract ∧ p d.comment := by
  simp [head]

theorem SharedDeclaration.forall_parts {d : SharedDeclaration} {p : Value → Prop} :
    (∀ value ∈ d.parts, p value) ↔ (∀ value ∈ d.head, p value) ∧
      (∀ entry ∈ d.constants.entries, p (.constant entry.2)) ∧
      (∀ entry ∈ d.properties.entries, p (.property entry.2)) ∧
      ∀ entry ∈ d.methods.entries, p (.method entry.2) := by
  simp only [parts, OrderedMap.values, List.forall_mem_append, List.forall_mem_map, and_assoc]

/-- What a store is watched for: a collection that is to stay in order, and values that are lost.
What is lost may be kept by what is lost itself, and by nothing else. -/
structure Watch where
  collection : Option Collection
  lost : Value → Prop
  leadsOn : ∀ {value}, lost value → value.leadsOn = true

namespace Watch

def nothing : Watch := ⟨none, fun _ => False, False.elim⟩

def order (collection : Collection) : Watch := ⟨some collection, fun _ => False, False.elim⟩

end Watch

namespace Store

/-- Whether the object behind a value was made, where there is one. -/
def Made (store : Store) : Value → Prop
  | .node h => store.nodes.Has h
  | .scope h => store.scopes.Has h
  | .classType h => store.classes.Has h
  | .constant h => store.constants.Has h
  | .property h => store.properties.Has h
  | .parameter h => store.parameters.Has h
  | .method h => store.methods.Has h
  | .map h => store.maps.Has h
  | _ => True

/-- Whether a value is there to be used: it was made, and it is not lost. -/
structure Has (store : Store) (watched : Watch) (value : Value) : Prop where
  made : store.Made value
  safe : ¬watched.lost value

/-- Whether an object may keep a value: one that was made, and that is lost only if the object is
lost as well. -/
structure MayKeep (store : Store) (watched : Watch) (holder value : Value) : Prop where
  made : store.Made value
  loses : watched.lost value → watched.lost holder

/-- Whether there may be a note: one of a member that was made, and that may keep the value. -/
structure MayNote (store : Store) (watched : Watch) (note : (Value × String) × Value) : Prop where
  member : note.1.1.memberType? ≠ none
  made : store.Made note.1.1
  mayKeep : store.MayKeep watched note.1.1 note.2

/-- What was made in the earlier store is there in the later one, and every declaration has stayed
in its namespace. -/
structure Within (earlier later : Store) : Prop where
  made : ∀ {value}, earlier.Made value → later.Made value
  linked : ∀ {h}, earlier.classes.Has h →
    (later.classes.get h).scope = (earlier.classes.get h).scope

section

variable {store after : Store} {watched : Watch} {holder value : Value}

theorem made_of_bare (bare : value.leadsOn = false) : store.Made value := by
  cases value with
  | atom _ | bytes _ | token _ | supertypes _ | shortener _ => trivial
  | _ => cases bare

/-- A value that leads to nothing is there in every store. -/
theorem has_of_bare (bare : value.leadsOn = false) : store.Has watched value :=
  ⟨made_of_bare bare, fun lost => Bool.false_ne_true (bare.symm.trans (watched.leadsOn lost))⟩

theorem Has.mono (has : store.Has watched value) (within : store.Within after) :
    after.Has watched value := ⟨within.made has.made, has.safe⟩

theorem Has.mayKeep (has : store.Has watched value) : store.MayKeep watched holder value :=
  ⟨has.made, fun lost => absurd lost has.safe⟩

/-- What an object keeps is there when the object is. -/
theorem MayKeep.has (kept : store.MayKeep watched holder value)
    (held : store.Has watched holder) : store.Has watched value :=
  ⟨kept.made, fun lost => held.safe (kept.loses lost)⟩

theorem MayKeep.mono (kept : store.MayKeep watched holder value)
    (made : ∀ {value}, store.Made value → after.Made value) :
    after.MayKeep watched holder value := ⟨made kept.made, kept.loses⟩

end

/-! ### Stores that have grown -/

namespace Within

variable {store : Store}

theorem refl (store : Store) : store.Within store := ⟨id, fun _ => rfl⟩

theorem trans {first second third : Store} (before : first.Within second)
    (after : second.Within third) : first.Within third where
  made made := after.made (before.made made)
  linked {h} has := by
    have there : first.Made (.classType h) := has
    exact (after.linked (before.made there)).trans (before.linked has)

theorem withNodes {nodes : Graph} (grown : store.nodes.size ≤ nodes.size) :
    store.Within { store with nodes } where
  made {value} made := by
    cases value with
    | node h => exact Nat.lt_of_lt_of_le made grown
    | _ => exact made
  linked _ := rfl

theorem withScopes {scopes : Arena .scope Namespace} (grown : store.scopes.size ≤ scopes.size) :
    store.Within { store with scopes } where
  made {value} made := by
    cases value with
    | scope h => exact Nat.lt_of_lt_of_le made grown
    | _ => exact made
  linked _ := rfl

theorem withClasses {classes : Arena .classType ClassObject}
    (grown : store.classes.size ≤ classes.size)
    (linked : ∀ {h}, store.classes.Has h → (classes.get h).scope = (store.classes.get h).scope) :
    store.Within { store with classes } where
  made {value} made := by
    cases value with
    | classType h => exact Nat.lt_of_lt_of_le made grown
    | _ => exact made
  linked := linked

theorem withConstants {constants : Arena .constant Constant}
    (grown : store.constants.size ≤ constants.size) : store.Within { store with constants } where
  made {value} made := by
    cases value with
    | constant h => exact Nat.lt_of_lt_of_le made grown
    | _ => exact made
  linked _ := rfl

theorem withProperties {properties : Arena .property Property}
    (grown : store.properties.size ≤ properties.size) :
    store.Within { store with properties } where
  made {value} made := by
    cases value with
    | property h => exact Nat.lt_of_lt_of_le made grown
    | _ => exact made
  linked _ := rfl

theorem withParameters {parameters : Arena .parameter Parameter}
    (grown : store.parameters.size ≤ parameters.size) :
    store.Within { store with parameters } where
  made {value} made := by
    cases value with
    | parameter h => exact Nat.lt_of_lt_of_le made grown
    | _ => exact made
  linked _ := rfl

theorem withMethods {methods : Arena .method (Method (Handle .parameter))}
    (grown : store.methods.size ≤ methods.size) : store.Within { store with methods } where
  made {value} made := by
    cases value with
    | method h => exact Nat.lt_of_lt_of_le made grown
    | _ => exact made
  linked _ := rfl

theorem withMaps {maps : Arena .map MapObject} (grown : store.maps.size ≤ maps.size) :
    store.Within { store with maps } where
  made {value} made := by
    cases value with
    | map h => exact Nat.lt_of_lt_of_le made grown
    | _ => exact made
  linked _ := rfl

end Within

/-! ### Collections -/

/-- The name of a member. -/
def nameOf (store : Store) : Value → String
  | .constant h => (store.constants.get h).name.text
  | .property h => (store.properties.get h).name.text
  | .parameter h => (store.parameters.get h).name.text
  | .method h => (store.methods.get h).name.text
  | _ => ""

/-- The members of a collection, each with its key. -/
def held (store : Store) : Collection → List (String × Value)
  | .constants h => (store.classes.get h).declaration.constants.entries.map fun entry =>
      (entry.1.word.toText, .constant entry.2)
  | .properties h => (store.classes.get h).declaration.properties.entries.map fun entry =>
      (entry.1.word.toText, .property entry.2)
  | .methods h => (store.classes.get h).declaration.methods.entries.map fun entry =>
      (entry.1.word.toText, .method entry.2)
  | .parameters h => (store.methods.get h).parameters.entries.map fun entry =>
      (entry.1, .parameter entry.2)

/-- A member is there and has the name of a label. -/
def Named (store : Store) (watched : Watch) (label : Label) (member : Value) : Prop :=
  store.Has watched member ∧ store.nameOf member = label.word.toText

/-- Every member of the collection stands under its name. -/
def InOrder (store : Store) (collection : Collection) : Prop :=
  ∀ entry ∈ store.held collection, store.nameOf entry.2 = entry.1

/-! ### Tidy stores -/

/-- Everything that is kept was made, and nothing but what is lost keeps what is lost. -/
structure Sound (watched : Watch) (store : Store) : Prop where
  nodes : ∀ h, ∀ value ∈ (store.nodes.get h).parts, store.MayKeep watched (.node h) value
  classes : ∀ h, ∀ value ∈ (store.classes.get h).declaration.parts,
    store.MayKeep watched (.classType h) value
  methods : ∀ h, ∀ parameter ∈ (store.methods.get h).parameters.values,
    store.MayKeep watched (.method h) (.parameter parameter)
  maps : ∀ h, ∀ value ∈ Entries.parts (store.maps.get h).items,
    store.MayKeep watched (.map h) value
  notes : ∀ note ∈ store.notes, store.MayNote watched note
  /-- No declaration is in a namespace that is lost. -/
  links : ∀ h, ∀ scope ∈ (store.classes.get h).scope, store.Has watched (.scope scope)
  /-- What is lost was there once, so that nothing new is lost. -/
  past : ∀ {value}, watched.lost value → store.Made value

/-- Everything that is kept was made and nothing lost is in use, and the collection that is watched
is in order. -/
structure Tidy (watched : Watch) (store : Store) : Prop extends Sound watched store where
  inOrder : ∀ collection ∈ watched.collection, store.InOrder collection

namespace Sound

variable {watched : Watch} {store after : Store}

/-- A member of a collection was made. -/
theorem made_of_held (sound : store.Sound watched) {collection : Collection}
    {entry : String × Value} (member : entry ∈ store.held collection) : store.Made entry.2 := by
  cases collection with
  | constants h =>
      obtain ⟨kept, inside, rfl⟩ := List.mem_map.1 member
      exact ((SharedDeclaration.forall_parts.1 (sound.classes h)).2.1 kept inside).made
  | properties h =>
      obtain ⟨kept, inside, rfl⟩ := List.mem_map.1 member
      exact ((SharedDeclaration.forall_parts.1 (sound.classes h)).2.2.1 kept inside).made
  | methods h =>
      obtain ⟨kept, inside, rfl⟩ := List.mem_map.1 member
      exact ((SharedDeclaration.forall_parts.1 (sound.classes h)).2.2.2 kept inside).made
  | parameters h =>
      obtain ⟨kept, inside, rfl⟩ := List.mem_map.1 member
      exact (sound.methods h _ (List.mem_map.2 ⟨kept, inside, rfl⟩)).made

/-- What was not there before is not lost. -/
theorem has_new (sound : store.Sound watched) {value : Value} (fresh : ¬store.Made value)
    (made : after.Made value) : after.Has watched value :=
  ⟨made, fun lost => fresh (sound.past lost)⟩

/-- Where nothing is lost it is enough that everything was made. -/
theorem of_none_lost (sound : store.Sound watched) {other : Watch}
    (none : ∀ {value}, ¬other.lost value) : store.Sound other where
  nodes h value kept := ⟨(sound.nodes h value kept).made, fun lost => absurd lost none⟩
  classes h value kept := ⟨(sound.classes h value kept).made, fun lost => absurd lost none⟩
  methods h value kept := ⟨(sound.methods h value kept).made, fun lost => absurd lost none⟩
  maps h value kept := ⟨(sound.maps h value kept).made, fun lost => absurd lost none⟩
  notes note kept :=
    have noted := sound.notes note kept
    ⟨noted.member, noted.made, noted.mayKeep.made, fun lost => absurd lost none⟩
  links h scope linked := ⟨(sound.links h scope linked).made, none⟩
  past lost := absurd lost none

/-- A store stays sound while it keeps what it kept before, or what may be kept. -/
theorem of_made (sound : store.Sound watched)
    (made : ∀ {value}, store.Made value → after.Made value)
    (nodes : ∀ h, ∀ value ∈ (after.nodes.get h).parts,
      value ∈ (store.nodes.get h).parts ∨ after.MayKeep watched (.node h) value)
    (classes : ∀ h, ∀ value ∈ (after.classes.get h).declaration.parts,
      value ∈ (store.classes.get h).declaration.parts ∨ store.MayKeep watched (.classType h) value)
    (methods : ∀ h, ∀ parameter ∈ (after.methods.get h).parameters.values,
      parameter ∈ (store.methods.get h).parameters.values ∨
        store.MayKeep watched (.method h) (.parameter parameter))
    (maps : ∀ h, ∀ value ∈ Entries.parts (after.maps.get h).items,
      value ∈ Entries.parts (store.maps.get h).items ∨ store.MayKeep watched (.map h) value)
    (notes : ∀ note ∈ after.notes, note ∈ store.notes ∨ store.MayNote watched note)
    (links : ∀ h, ∀ scope ∈ (after.classes.get h).scope,
      scope ∈ (store.classes.get h).scope ∨ store.Has watched (.scope scope)) :
    after.Sound watched where
  nodes h value kept :=
    (nodes h value kept).elim (fun old => (sound.nodes h value old).mono made) id
  classes h value kept := ((classes h value kept).elim (sound.classes h value) id).mono made
  methods h value kept := ((methods h value kept).elim (sound.methods h value) id).mono made
  maps h value kept := ((maps h value kept).elim (sound.maps h value) id).mono made
  notes note kept :=
    have noted := (notes note kept).elim (sound.notes note) id
    ⟨noted.member, made noted.made, noted.mayKeep.mono made⟩
  links h scope linked :=
    have has := (links h scope linked).elim (sound.links h scope) id
    ⟨made has.made, has.safe⟩
  past lost := made (sound.past lost)

end Sound

namespace Tidy

variable {watched : Watch} {store after : Store}

/-- What is watched stays in order while existing members keep their names and others come in
under theirs. -/
theorem of_sound (tidy : store.Tidy watched) (sound : after.Sound watched)
    (names : watched.collection ≠ none → ∀ value, store.Made value →
      after.nameOf value = store.nameOf value)
    (held : ∀ collection ∈ watched.collection, ∀ entry ∈ after.held collection,
      entry ∈ store.held collection ∨ after.nameOf entry.2 = entry.1) : after.Tidy watched where
  toSound := sound
  inOrder collection watch entry member := by
    obtain old | placed := held collection watch entry member
    · rw [names (by rw [watch]; exact Option.some_ne_none _) _ (tidy.made_of_held old)]
      exact tidy.inOrder collection watch entry old
    · exact placed

/-! ### Values -/

theorem withNodes (tidy : store.Tidy watched) {nodes : Graph}
    (grown : store.nodes.size ≤ nodes.size)
    (kept : ∀ h, ∀ value ∈ (nodes.get h).parts, value ∈ (store.nodes.get h).parts ∨
      ({ store with nodes } : Store).MayKeep watched (.node h) value) :
    let after : Store := { store with nodes }
    after.Tidy watched ∧ store.Within after := by
  have within : store.Within { store with nodes } := .withNodes grown
  refine ⟨tidy.of_sound ?_ (fun _ _ _ => rfl) fun collection _ _ member => .inl ?_, within⟩
  · exact tidy.of_made within.made kept (fun _ _ => .inl) (fun _ _ => .inl) (fun _ _ => .inl)
      (fun _ => .inl) fun _ _ => .inl
  · cases collection <;> exact member

/-- A new container keeps what is there, and is there itself. -/
theorem addNode (tidy : store.Tidy watched) (node : Node)
    (exist : ∀ value ∈ node.parts, store.Has watched value) :
    let after : Store := { store with nodes := store.nodes.push node }
    (after.Tidy watched ∧ store.Within after) ∧ after.Has watched (.node store.nodes.next) := by
  have grown : store.nodes.size ≤ (store.nodes.push node).size := by simp
  refine ⟨tidy.withNodes grown fun h value kept => ?_,
    tidy.has_new store.nodes.not_has_next (store.nodes.has_push_next node)⟩
  exact (Arena.of_mem_get_push Node.parts kept).imp_right fun ⟨_, new⟩ =>
    (exist value new).mayKeep.mono (Within.withNodes grown).made

theorem setNode (tidy : store.Tidy watched) (h : Handle .node) {node : Node}
    (exist : ∀ value ∈ node.parts, store.Has watched value) :
    let after : Store := { store with nodes := store.nodes.set h node }
    after.Tidy watched ∧ store.Within after :=
  tidy.withNodes (by simp) fun _ value kept =>
    (Arena.of_mem_get_set Node.parts kept).imp_right fun ⟨_, new⟩ =>
      (exist value new).mayKeep.mono (Within.withNodes (by simp)).made

theorem withMaps (tidy : store.Tidy watched) {maps : Arena .map MapObject}
    (grown : store.maps.size ≤ maps.size)
    (kept : ∀ h, ∀ value ∈ Entries.parts (maps.get h).items,
      value ∈ Entries.parts (store.maps.get h).items ∨ store.MayKeep watched (.map h) value) :
    let after : Store := { store with maps }
    after.Tidy watched ∧ store.Within after := by
  have within : store.Within { store with maps } := .withMaps grown
  refine ⟨tidy.of_sound ?_ (fun _ _ _ => rfl) fun collection _ _ member => .inl ?_, within⟩
  · exact tidy.of_made within.made (fun _ _ => .inl) (fun _ _ => .inl) (fun _ _ => .inl) kept
      (fun _ => .inl) fun _ _ => .inl
  · cases collection <;> exact member

theorem withNotes (tidy : store.Tidy watched) {notes : List ((Value × String) × Value)}
    (kept : ∀ note ∈ notes, note ∈ store.notes ∨ store.MayNote watched note) :
    let after : Store := { store with notes }
    after.Tidy watched ∧ store.Within after := by
  have within : store.Within { store with notes } := ⟨id, fun _ => rfl⟩
  refine ⟨tidy.of_sound ?_ (fun _ _ _ => rfl) fun collection _ _ member => .inl ?_, within⟩
  · exact tidy.of_made id (fun _ _ => .inl) (fun _ _ => .inl) (fun _ _ => .inl) (fun _ _ => .inl)
      kept fun _ _ => .inl
  · cases collection <;> exact member

/-- Namespaces, shorteners and identities keep nothing. -/
theorem withNames (tidy : store.Tidy watched) {scopes : Arena .scope Namespace}
    {shorteners : Arena .shortener (OrderedMap String String)} {tokens : Nat}
    (grown : store.scopes.size ≤ scopes.size) :
    let after : Store := { store with scopes, shorteners, tokens }
    after.Tidy watched ∧ store.Within after := by
  have within : store.Within { store with scopes, shorteners, tokens } :=
    (Within.withScopes grown).trans ⟨id, fun _ => rfl⟩
  refine ⟨tidy.of_sound ?_ (fun _ _ _ => rfl) fun collection _ _ member => .inl ?_, within⟩
  · exact tidy.of_made within.made (fun _ _ => .inl) (fun _ _ => .inl) (fun _ _ => .inl)
      (fun _ _ => .inl) (fun _ => .inl) fun _ _ => .inl
  · cases collection <;> exact member

/-- Declarations may keep what they may, be in namespaces that are there, and take members into what
is watched under their names. -/
theorem withClasses (tidy : store.Tidy watched) {classes : Arena .classType ClassObject}
    (grown : store.classes.size ≤ classes.size)
    (kept : ∀ h, ∀ value ∈ (classes.get h).declaration.parts,
      value ∈ (store.classes.get h).declaration.parts ∨ store.MayKeep watched (.classType h) value)
    (links : ∀ h, ∀ scope ∈ (classes.get h).scope,
      scope ∈ (store.classes.get h).scope ∨ store.Has watched (.scope scope))
    (held : ∀ collection ∈ watched.collection,
      ∀ entry ∈ ({ store with classes } : Store).held collection,
        entry ∈ store.held collection ∨ store.nameOf entry.2 = entry.1) :
    ({ store with classes } : Store).Tidy watched := by
  have made {value : Value} (made : store.Made value) :
      ({ store with classes } : Store).Made value := by
    cases value with
    | classType h => exact Nat.lt_of_lt_of_le made grown
    | _ => exact made
  exact tidy.of_sound (tidy.of_made made (fun _ _ => .inl) kept (fun _ _ => .inl) (fun _ _ => .inl)
    (fun _ => .inl) links) (fun _ _ _ => rfl) held

/-! ### Members -/

/-- Only members may be others than before: nothing kept goes, and names stay. -/
theorem withMembers (tidy : store.Tidy watched) {constants : Arena .constant Constant}
    {properties : Arena .property Property} {parameters : Arena .parameter Parameter}
    (within : store.Within { store with constants, properties, parameters })
    (names : watched.collection ≠ none → ∀ value, store.Made value →
      ({ store with constants, properties, parameters } : Store).nameOf value =
        store.nameOf value) :
    ({ store with constants, properties, parameters } : Store).Tidy watched :=
  tidy.of_sound
    (tidy.of_made within.made (fun _ _ => .inl) (fun _ _ => .inl) (fun _ _ => .inl)
      (fun _ _ => .inl) (fun _ => .inl) fun _ _ => .inl)
    names (fun collection _ entry member => .inl (by cases collection <;> exact member))

/-- Methods may take parameters that they may keep, and into what is watched under their names. -/
theorem withMethods (tidy : store.Tidy watched)
    {methods : Arena .method (Method (Handle .parameter))}
    (grown : store.methods.size ≤ methods.size)
    (names : watched.collection ≠ none →
      ∀ h, store.methods.Has h → (methods.get h).name = (store.methods.get h).name)
    (kept : ∀ h, ∀ parameter ∈ (methods.get h).parameters.values,
      parameter ∈ (store.methods.get h).parameters.values ∨
        store.MayKeep watched (.method h) (.parameter parameter))
    (held : ∀ h, .parameters h ∈ watched.collection → ∀ entry ∈ (methods.get h).parameters.entries,
      entry ∈ (store.methods.get h).parameters.entries ∨
        (store.parameters.get entry.2).name.text = entry.1) :
    let after : Store := { store with methods }
    after.Tidy watched ∧ store.Within after := by
  have within : store.Within { store with methods } := .withMethods grown
  refine ⟨tidy.of_sound ?_ (fun watch value made => ?_) fun collection watch entry member => ?_,
    within⟩
  · exact tidy.of_made within.made (fun _ _ => .inl) (fun _ _ => .inl) kept (fun _ _ => .inl)
      (fun _ => .inl) fun _ _ => .inl
  · cases value with
    | method h => exact congrArg Identifier.text (names watch h made)
    | _ => rfl
  · cases collection with
    | parameters h =>
        obtain ⟨kept, inside, rfl⟩ := List.mem_map.1 member
        exact (held h watch kept inside).imp_left fun old => List.mem_map.2 ⟨kept, old, rfl⟩
    | _ => exact .inl member

/-- A new declaration has no members, keeps nothing, and is in a namespace that is there. -/
theorem addClass (tidy : store.Tidy watched) (object : ClassObject)
    (head : ∀ value ∈ object.declaration.head, store.Has watched value)
    (link : ∀ scope ∈ object.scope, store.Has watched (.scope scope))
    (constants : object.declaration.constants = .empty)
    (properties : object.declaration.properties = .empty)
    (methods : object.declaration.methods = .empty) :
    let after : Store := { store with classes := store.classes.push object }
    (after.Tidy watched ∧ store.Within after) ∧
      after.Has watched (.classType store.classes.next) := by
  have grown : store.classes.size ≤ (store.classes.push object).size := by simp
  have within : store.Within { store with classes := store.classes.push object } :=
    .withClasses grown fun has => congrArg ClassObject.scope (Arena.get_push_of_has has object)
  refine ⟨⟨tidy.withClasses grown (fun h value kept => ?_) (fun h scope linked => ?_)
    fun collection _ entry member => .inl ?_, within⟩,
    tidy.has_new store.classes.not_has_next (store.classes.has_push_next object)⟩
  · obtain old | new := Arena.of_mem_get_push
      (fun object : ClassObject => object.declaration.parts) kept
    · exact .inl old
    · have new := new.2
      rw [SharedDeclaration.parts, constants, properties, methods] at new
      simp only [OrderedMap.values, OrderedMap.empty, List.map_nil, List.append_nil] at new
      exact .inr (head value new).mayKeep
  · obtain old | new := Arena.of_mem_get_push (fun object : ClassObject => object.scope.toList)
      (Option.mem_toList.2 linked)
    · exact .inl (Option.mem_toList.1 old)
    · exact .inr (link scope (Option.mem_toList.1 new.2))
  · cases collection with
    | constants h =>
        exact Arena.of_mem_get_push_of_nil (fun object : ClassObject =>
          object.declaration.constants.entries.map _) (by rw [constants]; rfl) member
    | properties h =>
        exact Arena.of_mem_get_push_of_nil (fun object : ClassObject =>
          object.declaration.properties.entries.map _) (by rw [properties]; rfl) member
    | methods h =>
        exact Arena.of_mem_get_push_of_nil (fun object : ClassObject =>
          object.declaration.methods.entries.map _) (by rw [methods]; rfl) member
    | parameters h => exact member

theorem addConstant (tidy : store.Tidy watched) (constant : Constant) :
    (store.addConstant constant).1.Tidy watched ∧ store.Within (store.addConstant constant).1 := by
  have within : store.Within (store.addConstant constant).1 := .withConstants (by simp)
  refine ⟨tidy.withMembers within fun _ value made => ?_, within⟩
  cases value with
  | constant h => simp only [nameOf, Arena.get_push_of_has made]
  | _ => rfl

theorem addProperty (tidy : store.Tidy watched) (property : Property) :
    (store.addProperty property).1.Tidy watched ∧ store.Within (store.addProperty property).1 := by
  have within : store.Within (store.addProperty property).1 := .withProperties (by simp)
  refine ⟨tidy.withMembers within fun _ value made => ?_, within⟩
  cases value with
  | property h => simp only [nameOf, Arena.get_push_of_has made]
  | _ => rfl

theorem addParameter (tidy : store.Tidy watched) (parameter : Parameter) :
    (store.addParameter parameter).1.Tidy watched ∧
      store.Within (store.addParameter parameter).1 := by
  have within : store.Within (store.addParameter parameter).1 := .withParameters (by simp)
  refine ⟨tidy.withMembers within fun _ value made => ?_, within⟩
  cases value with
  | parameter h => simp only [nameOf, Arena.get_push_of_has made]
  | _ => rfl

theorem addMethod (tidy : store.Tidy watched) (method : Method (Handle .parameter))
    (exist : ∀ parameter ∈ method.parameters.values,
      store.MayKeep watched (.method store.methods.next) (.parameter parameter))
    (placed : .parameters store.methods.next ∈ watched.collection →
      ∀ entry ∈ method.parameters.entries, (store.parameters.get entry.2).name.text = entry.1) :
    (store.addMethod method).1.Tidy watched ∧ store.Within (store.addMethod method).1 := by
  refine tidy.withMethods (by simp) (fun _ h has => ?_) (fun h parameter kept => ?_)
    fun h watch entry member => ?_
  · rw [Arena.get_push_of_has has]
  · refine (Arena.of_mem_get_push
      (fun method : Method (Handle .parameter) => method.parameters.values) kept).imp_right
        fun ⟨last, new⟩ => ?_
    exact last ▸ exist parameter new
  · refine (Arena.of_mem_get_push
      (fun method : Method (Handle .parameter) => method.parameters.entries) member).imp_right
        fun ⟨last, new⟩ => ?_
    exact placed (last ▸ watch) entry new

theorem setConstant (tidy : store.Tidy watched) {h : Handle .constant} {constant : Constant}
    (named : watched.collection ≠ none → constant.name = (store.constants.get h).name) :
    (store.setConstant h constant).Tidy watched ∧ store.Within (store.setConstant h constant) := by
  have within : store.Within (store.setConstant h constant) := .withConstants (by simp)
  refine ⟨tidy.withMembers within fun watch value _ => ?_, within⟩
  cases value with
  | constant other =>
      exact congrArg Identifier.text (Arena.image_get_set Constant.name (named watch) other)
  | _ => rfl

theorem setProperty (tidy : store.Tidy watched) {h : Handle .property} {property : Property}
    (named : watched.collection ≠ none → property.name = (store.properties.get h).name) :
    (store.setProperty h property).Tidy watched ∧ store.Within (store.setProperty h property) := by
  have within : store.Within (store.setProperty h property) := .withProperties (by simp)
  refine ⟨tidy.withMembers within fun watch value _ => ?_, within⟩
  cases value with
  | property other =>
      exact congrArg Identifier.text (Arena.image_get_set Property.name (named watch) other)
  | _ => rfl

theorem setParameter (tidy : store.Tidy watched) {h : Handle .parameter} {parameter : Parameter}
    (named : watched.collection ≠ none → parameter.name = (store.parameters.get h).name) :
    (store.setParameter h parameter).Tidy watched ∧
      store.Within (store.setParameter h parameter) := by
  have within : store.Within (store.setParameter h parameter) := .withParameters (by simp)
  refine ⟨tidy.withMembers within fun watch value _ => ?_, within⟩
  cases value with
  | parameter other =>
      exact congrArg Identifier.text (Arena.image_get_set Parameter.name (named watch) other)
  | _ => rfl

theorem setMethod (tidy : store.Tidy watched) (h : Handle .method)
    (method : Method (Handle .parameter))
    (named : watched.collection ≠ none → method.name = (store.methods.get h).name)
    (exist : ∀ parameter ∈ method.parameters.values,
      store.MayKeep watched (.method h) (.parameter parameter))
    (placed : .parameters h ∈ watched.collection → ∀ entry ∈ method.parameters.entries,
      entry ∈ (store.methods.get h).parameters.entries ∨
        (store.parameters.get entry.2).name.text = entry.1) :
    (store.setMethod h method).Tidy watched ∧ store.Within (store.setMethod h method) := by
  refine tidy.withMethods (by simp) (fun watch other _ => ?_) (fun other parameter kept => ?_)
    fun other watch entry member => ?_
  · exact Arena.image_get_set Method.name (named watch) other
  · refine (Arena.of_mem_get_set
      (fun method : Method (Handle .parameter) => method.parameters.values) kept).imp_right
        fun ⟨same, new⟩ => ?_
    exact same ▸ exist parameter new
  · obtain old | ⟨rfl, new⟩ := Arena.of_mem_get_set
      (fun method : Method (Handle .parameter) => method.parameters.entries) member
    · exact .inl old
    · exact placed watch entry new

/-- The parameters of a method are added, as far as they are new. -/
theorem settleMethod (tidy : store.Tidy watched) {method : Method (Draft .parameter Parameter)}
    {holder : Value} (exist : ∀ h, .existing h ∈ method.parameters.values →
      store.MayKeep watched holder (.parameter h)) :
    (store.settleMethod method).1.Tidy watched ∧ store.Within (store.settleMethod method).1 ∧
      ∀ parameter ∈ (store.settleMethod method).2.parameters.values,
        (store.settleMethod method).1.MayKeep watched holder (.parameter parameter) := by
  obtain ⟨grown, kept, settled⟩ := store.parameters.mapAccum_settle method.parameters.entries
  have within : store.Within (store.settleMethod method).1 := .withParameters grown
  refine ⟨tidy.withMembers within fun _ value made => ?_, within, fun parameter member => ?_⟩
  · cases value with
    | parameter h => exact congrArg (·.name.text) (kept h made)
    | _ => rfl
  · obtain ⟨entry, inside, rfl⟩ := List.mem_map.1 member
    obtain ⟨draft, drafted, rfl | ⟨fresh, has, -⟩⟩ := settled entry inside
    · exact (exist _ (List.mem_map.2 ⟨_, drafted, rfl⟩)).mono within.made
    · have new : (store.settleMethod method).1.Has watched (.parameter entry.2) :=
        tidy.has_new fresh has
      exact new.mayKeep

/-! ### Declarations -/

/-- Constants are added, as far as they are new, and have the names that they were drafted with. -/
theorem settleConstants (tidy : store.Tidy watched)
    (entries : List (Label × Draft .constant Constant))
    (exist : ∀ h, .existing h ∈ entries.map Prod.snd → store.Has watched (.constant h))
    (named : ∀ entry ∈ entries, (store.constantName entry.2).text = entry.1.word.toText) :
    let result := Entries.mapAccum Arena.settle store.constants entries
    let after : Store := { store with constants := result.1 }
    after.Tidy watched ∧ store.Within after ∧
      ∀ entry ∈ result.2, after.Named watched entry.1 (.constant entry.2) := by
  obtain ⟨grown, kept, settled⟩ := store.constants.mapAccum_settle entries
  have within : store.Within
      { store with constants := (Entries.mapAccum Arena.settle store.constants entries).1 } :=
    .withConstants grown
  refine ⟨tidy.withMembers within fun _ value made => ?_, within, fun entry member => ?_⟩
  · cases value with
    | constant h => exact congrArg (·.name.text) (kept h made)
    | _ => rfl
  · obtain ⟨draft, drafted, rfl | ⟨fresh, has, rfl⟩⟩ := settled entry member
    · have has := exist _ (List.mem_map.2 ⟨_, drafted, rfl⟩)
      exact ⟨has.mono within, (congrArg (·.name.text) (kept _ has.made)).trans (named _ drafted)⟩
    · exact ⟨tidy.has_new fresh has, named _ drafted⟩

/-- A declaration may keep what it may, and take members in under their names. -/
theorem changeClass (tidy : store.Tidy watched) (h : Handle .classType)
    (change : SharedDeclaration → SharedDeclaration)
    (head : ∀ value ∈ (change (store.classes.get h).declaration).head,
      value ∈ (store.classes.get h).declaration.head ∨ store.Has watched value)
    (constants : ∀ entry ∈ (change (store.classes.get h).declaration).constants.entries,
      entry ∈ (store.classes.get h).declaration.constants.entries ∨
        store.Named watched entry.1 (.constant entry.2))
    (properties : ∀ entry ∈ (change (store.classes.get h).declaration).properties.entries,
      entry ∈ (store.classes.get h).declaration.properties.entries ∨
        store.Named watched entry.1 (.property entry.2))
    (methods : ∀ entry ∈ (change (store.classes.get h).declaration).methods.entries,
      entry ∈ (store.classes.get h).declaration.methods.entries ∨
        store.Named watched entry.1 (.method entry.2)) :
    (store.changeClass h change).Tidy watched ∧ store.Within (store.changeClass h change) := by
  have grown : store.classes.size ≤ (store.changeClass h change).classes.size := by
    simp [Store.changeClass]
  have linked (other : Handle .classType) :
      ((store.changeClass h change).classes.get other).scope =
        (store.classes.get other).scope := by
    refine Arena.image_get_set ClassObject.scope ?_ other
    rfl
  have changed {β : Type} {other : Handle .classType} (f : ClassObject → List β) {b : β}
      (member : b ∈ f ((store.changeClass h change).classes.get other)) :=
    Arena.of_mem_get_set f member
  refine ⟨tidy.withClasses grown (fun other value kept => ?_)
    (fun other _ link => .inl (linked other ▸ link)) fun collection _ entry member => ?_,
    .withClasses grown fun _ => linked _⟩
  · obtain old | ⟨rfl, new⟩ := changed (·.declaration.parts) kept
    · exact .inl old
    · have exist := SharedDeclaration.forall_parts.1 (tidy.classes h)
      have all : ∀ value ∈ (change (store.classes.get h).declaration).parts,
          store.MayKeep watched (.classType h) value := by
        refine SharedDeclaration.forall_parts.2 ⟨fun value member => ?_, fun entry member => ?_,
          fun entry member => ?_, fun entry member => ?_⟩
        · exact (head value member).elim (exist.1 value) (·.mayKeep)
        · exact (constants entry member).elim (exist.2.1 entry) (·.1.mayKeep)
        · exact (properties entry member).elim (exist.2.2.1 entry) (·.1.mayKeep)
        · exact (methods entry member).elim (exist.2.2.2 entry) (·.1.mayKeep)
      exact .inr (all value new)
  · cases collection with
    | constants other =>
        obtain ⟨kept, inside, rfl⟩ := List.mem_map.1 member
        obtain old | ⟨rfl, new⟩ := changed (·.declaration.constants.entries) inside
        · exact .inl (List.mem_map.2 ⟨kept, old, rfl⟩)
        · exact (constants kept new).imp (fun old => List.mem_map.2 ⟨kept, old, rfl⟩) And.right
    | properties other =>
        obtain ⟨kept, inside, rfl⟩ := List.mem_map.1 member
        obtain old | ⟨rfl, new⟩ := changed (·.declaration.properties.entries) inside
        · exact .inl (List.mem_map.2 ⟨kept, old, rfl⟩)
        · exact (properties kept new).imp (fun old => List.mem_map.2 ⟨kept, old, rfl⟩) And.right
    | methods other =>
        obtain ⟨kept, inside, rfl⟩ := List.mem_map.1 member
        obtain old | ⟨rfl, new⟩ := changed (·.declaration.methods.entries) inside
        · exact .inl (List.mem_map.2 ⟨kept, old, rfl⟩)
        · exact (methods kept new).imp (fun old => List.mem_map.2 ⟨kept, old, rfl⟩) And.right
    | parameters other => exact .inl member

theorem changeConstants (tidy : store.Tidy watched) (h : Handle .classType)
    (change : OrderedMap Label (Handle .constant) → OrderedMap Label (Handle .constant))
    (placed : ∀ entry ∈ (change (store.classes.get h).declaration.constants).entries,
      entry ∈ (store.classes.get h).declaration.constants.entries ∨
        store.Named watched entry.1 (.constant entry.2)) :
    let after := store.changeClass h fun d => { d with constants := change d.constants }
    after.Tidy watched ∧ store.Within after :=
  tidy.changeClass h (fun d => { d with constants := change d.constants })
    (fun _ => .inl) placed (fun _ => .inl) fun _ => .inl

theorem changeProperties (tidy : store.Tidy watched) (h : Handle .classType)
    (change : OrderedMap Label (Handle .property) → OrderedMap Label (Handle .property))
    (placed : ∀ entry ∈ (change (store.classes.get h).declaration.properties).entries,
      entry ∈ (store.classes.get h).declaration.properties.entries ∨
        store.Named watched entry.1 (.property entry.2)) :
    let after := store.changeClass h fun d => { d with properties := change d.properties }
    after.Tidy watched ∧ store.Within after :=
  tidy.changeClass h (fun d => { d with properties := change d.properties })
    (fun _ => .inl) (fun _ => .inl) placed fun _ => .inl

theorem changeMethods (tidy : store.Tidy watched) (h : Handle .classType)
    (change : OrderedMap Label (Handle .method) → OrderedMap Label (Handle .method))
    (placed : ∀ entry ∈ (change (store.classes.get h).declaration.methods).entries,
      entry ∈ (store.classes.get h).declaration.methods.entries ∨
        store.Named watched entry.1 (.method entry.2)) :
    let after := store.changeClass h fun d => { d with methods := change d.methods }
    after.Tidy watched ∧ store.Within after :=
  tidy.changeClass h (fun d => { d with methods := change d.methods })
    (fun _ => .inl) (fun _ => .inl) (fun _ => .inl) placed

end Tidy

/-! ## Members that are set all at once -/

section

variable {watched : Watch} {store : Store} {h : Handle .classType}

theorem inOrder_constants {members : OrderedMap Label (Handle .constant)}
    (named : ∀ entry ∈ members.entries, store.Named watched entry.1 (.constant entry.2)) :
    (store.changeClass h fun d => { d with constants := members }).InOrder (.constants h) := by
  intro entry member
  obtain ⟨kept, inside, rfl⟩ := List.mem_map.1 member
  exact (named kept (Arena.of_mem_get_set_self
    (fun object : ClassObject => object.declaration.constants.entries) rfl inside)).2

theorem inOrder_properties {members : OrderedMap Label (Handle .property)}
    (named : ∀ entry ∈ members.entries, store.Named watched entry.1 (.property entry.2)) :
    (store.changeClass h fun d => { d with properties := members }).InOrder (.properties h) := by
  intro entry member
  obtain ⟨kept, inside, rfl⟩ := List.mem_map.1 member
  exact (named kept (Arena.of_mem_get_set_self
    (fun object : ClassObject => object.declaration.properties.entries) rfl inside)).2

theorem inOrder_methods {members : OrderedMap Label (Handle .method)}
    (named : ∀ entry ∈ members.entries, store.Named watched entry.1 (.method entry.2)) :
    (store.changeClass h fun d => { d with methods := members }).InOrder (.methods h) := by
  intro entry member
  obtain ⟨kept, inside, rfl⟩ := List.mem_map.1 member
  exact (named kept (Arena.of_mem_get_set_self
    (fun object : ClassObject => object.declaration.methods.entries) rfl inside)).2

end

/-! ## New members -/

namespace Tidy

variable {watched : Watch} {store : Store}

theorem named_addConstant (tidy : store.Tidy watched) (constant : Constant) :
    (store.addConstant constant).1.Has watched (.constant store.constants.next) ∧
      (store.addConstant constant).1.nameOf (.constant store.constants.next) = constant.name.text :=
  ⟨tidy.has_new (Arena.not_has_next _) (Arena.has_push_next ..),
    congrArg (fun constant : Constant => constant.name.text) (Arena.get_push_next ..)⟩

theorem named_addProperty (tidy : store.Tidy watched) (property : Property) :
    (store.addProperty property).1.Has watched (.property store.properties.next) ∧
      (store.addProperty property).1.nameOf (.property store.properties.next) =
        property.name.text :=
  ⟨tidy.has_new (Arena.not_has_next _) (Arena.has_push_next ..),
    congrArg (fun property : Property => property.name.text) (Arena.get_push_next ..)⟩

theorem named_addParameter (tidy : store.Tidy watched) (parameter : Parameter) :
    (store.addParameter parameter).1.Has watched (.parameter store.parameters.next) ∧
      (store.addParameter parameter).1.nameOf (.parameter store.parameters.next) =
        parameter.name.text :=
  ⟨tidy.has_new (Arena.not_has_next _) (Arena.has_push_next ..),
    congrArg (fun parameter : Parameter => parameter.name.text) (Arena.get_push_next ..)⟩

theorem named_addMethod (tidy : store.Tidy watched) (method : Method (Handle .parameter)) :
    (store.addMethod method).1.Has watched (.method store.methods.next) ∧
      (store.addMethod method).1.nameOf (.method store.methods.next) = method.name.text :=
  ⟨tidy.has_new (Arena.not_has_next _) (Arena.has_push_next ..),
    congrArg (fun method : Method (Handle .parameter) => method.name.text)
      (Arena.get_push_next ..)⟩

end Tidy

end Store

end PhpDecl
