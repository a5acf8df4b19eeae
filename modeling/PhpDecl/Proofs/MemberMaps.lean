import PhpDecl.Proofs.MemberOutcomes
import PhpDecl.Proofs.Rendering

/-!
# Collections of members are maps

What a declaration holds follows from what was written to it. A log of the writes since a collection
was last set all at once is kept (`Store.Recorded`): whatever calls there were, refused ones among
them, the collection is the map that is made of its log, in which every name stands where it was
first written and has the member that was last written under it
(`Session.Reachable.keeps_latest`).
-/

namespace PhpDecl

/-- The entries that a dictionary of members was made of. -/
def Node.Lists (node : Node) (members : List (String × Value)) : Prop :=
  ∃ entries : List (Word × Value),
    node = .dict (entries.map fun entry => (.word entry.1, entry.2)) ∧
      entries.map (fun entry => (entry.1.toText, entry.2)) = members

/-! ## Asking for members -/

/-- A member is found under a text when it is found under the label of the text. -/
theorem OrderedMap.get?_word {α : Type} (wrap : α → Value) (map : OrderedMap Label α)
    (word : Word) : ((Label.ofWord? word).bind map.get?).map wrap =
      Entries.find? (· == ·) word.toText
        (map.entries.map fun entry => (entry.1.word.toText, wrap entry.2)) := by
  rw [Label.ofWord?]
  split
  next valid =>
    exact (@Entries.find?_image _ _ _ _ (· == ·) (· == ·) (fun label => label.word.toText)
      (fun _ _ => rfl) wrap ⟨word, valid⟩ map.entries).symm
  next invalid =>
    refine (Entries.find?_eq_none_iff.2 fun member => invalid ?_).symm
    obtain ⟨entry, inside, same⟩ := List.mem_map.1 member
    obtain ⟨⟨label, value⟩, -, rfl⟩ := List.mem_map.1 inside
    rw [Word.chars, ← same]
    exact label.valid

namespace Op

variable {store : Store}

theorem run_checkKey (store : Store) (key : Value) : (checkKey key).run store =
    match store.nodes.unkeyable? key with
    | some type => .error (.notKey type) store
    | none => .ok ⟨⟩ store := by
  rw [checkKey, run_get_bind]
  cases store.nodes.unkeyable? key <;> rfl

theorem run_lookup (commented : Commented store) {role : Role} (kind : String)
    (members : OrderedMap Label (Handle role)) (wrap : Handle role → Value) (key : Value) :
    (lookup kind members key >>= fun h => pure (wrap h)).run store =
      match store.nodes.unkeyable? key with
      | some type => .error (.notKey type) store
      | none =>
          match key.word?.bind fun word => Entries.find? (· == ·) word.toText
            (members.entries.map fun entry => (entry.1.word.toText, wrap entry.2)) with
          | some member => .ok member store
          | none => .error (.notFound kind key) store := by
  have checked := run_checkKey store key
  cases unkeyable : store.nodes.unkeyable? key with
  | some type =>
      rw [unkeyable] at checked
      exact run_bind_error (run_bind_error checked)
  | none =>
      rw [unkeyable] at checked
      have missed : (refuse (.notFound kind key) >>= fun h : Handle role => pure (wrap h) :
          Op Value).run store = .error (.notFound kind key) store :=
        congrArg (EStateM.Result.error · store)
          (refusal_eq_of_commented commented (.notFound kind key))
      rw [lookup, bind_assoc, run_bind_ok checked]
      cases key.word? with
      | none => exact missed
      | some word =>
          have found := members.get?_word wrap word
          simp only [Option.bind_some, ← found]
          cases (Label.ofWord? word).bind members.get? with
          | none => exact missed
          | some h => rfl

/-- A member is answered for its key, and nothing is found under any other. -/
theorem run_getOne (commented : Commented store) (h : Handle .classType) (sort : MemberSort)
    (key : Value) : (ask (.classType h) sort.getOne [key]).run store =
      match store.nodes.unkeyable? key with
      | some type => .error (.notKey type) store
      | none =>
          match key.word?.bind fun word =>
            Entries.find? (· == ·) word.toText (store.held (sort.collection h)) with
          | some member => .ok member store
          | none => .error (.notFound sort.label key) store := by
  cases sort with
  | constant => exact run_lookup commented _ _ .constant key
  | property => exact run_lookup commented _ _ .property key
  | method => exact run_lookup commented _ _ .method key

theorem run_getAll (store : Store) (h : Handle .classType) (sort : MemberSort) :
    ∃ node : Node, node.Lists (store.held (sort.collection h)) ∧
      (ask (.classType h) sort.getAll []).run store =
        .ok (.node store.nodes.next) { store with nodes := store.nodes.push node } := by
  have lists {role : Role} (wrap : Handle role → Value) (members : OrderedMap Label (Handle role)) :
      (memberDict wrap members).Lists
        (members.entries.map fun entry => (entry.1.word.toText, wrap entry.2)) :=
    ⟨members.entries.map fun entry => (entry.1.word, wrap entry.2),
      by rw [memberDict, List.map_map]; rfl, by rw [List.map_map]; rfl⟩
  cases sort with
  | constant => exact ⟨_, lists .constant _, rfl⟩
  | property => exact ⟨_, lists .property _, rfl⟩
  | method => exact ⟨_, lists .method _, rfl⟩

/-- The operation leaves the collections of a declaration as they are, and all containers that are
there; every comment can still be read. -/
structure Spares (h : Handle .classType) (op : Op Value) : Prop where
  held : ∀ store (sort : MemberSort),
    (op.left store).held (sort.collection h) = store.held (sort.collection h)
  made : ∀ store : Store, store.classes.Has h → (op.left store).classes.Has h
  nodes : ∀ store, (op.left store).nodes.Extends store.nodes
  comments : Keeps Commented op

/-- What touches no declaration and no container that is there spares every declaration. -/
theorem Spares.of_keeps {op : Op Value}
    (classes : ∀ Q : Arena .classType ClassObject → Prop, Keeps (OnClasses Q) op)
    (nodes : ∀ start : Store, Keeps (fun store => store.nodes.Extends start.nodes) op)
    (h : Handle .classType) : op.Spares h where
  held store sort := by
    have same := leaves_iff.1 (classes (· = store.classes) store rfl)
    rw [Store.held_collection, Store.held_collection, same]
  made store has := leaves_iff.1 (classes (fun classes => classes.Has h) store has)
  nodes store := leaves_iff.1 (nodes store store (.refl _))
  comments := classes _

instance {start : Store} : Growing fun store => store.nodes.Extends start.nodes :=
  ⟨fun kept more => more.trans kept⟩

theorem Spares.newNode (node : Node) (h : Handle .classType) : (newNode node).Spares h :=
  .of_keeps (fun _ => Keeps.newNode node) (fun _ => Keeps.newNode node) h

theorem Spares.getAll (sort : MemberSort) (other h : Handle .classType) :
    (ask (.classType other) sort.getAll []).Spares h := by
  have kept {P : Store → Prop} [Growing P] : Keeps P (ask (.classType other) sort.getAll []) := by
    cases sort <;> exact .get fun _ _ => .newNode _
  exact .of_keeps (fun _ => kept) (fun _ => kept) h

/-- Whatever is assigned to a member, also another name, moves no member. -/
theorem Spares.assign (target : Value) (field : Field) (value : Value) (h : Handle .classType) :
    (assign target field value >>= fun _ => pure .null).Spares h := by
  refine .of_keeps (fun _ => .bind (Keeps.assign target field value) fun _ => .pure _)
    (fun start => .bind (.get fun store kept => ?_) fun _ => .pure _) h
  cases target with
  | constant c => exact .bind (Keeps.ofFields _) fun _ => .set kept
  | property p => exact .bind (Keeps.ofFields _) fun _ => .set kept
  | parameter p => exact .bind (Keeps.ofFields _) fun _ => .set kept
  | method m => exact .bind (Keeps.ofFields _) fun _ => .set kept
  | _ => exact .throw _

end Op

/-! ## Events -/

/-- What happens to a declaration: a call that writes members, or anything else. -/
inductive Event
  | call (call : MemberCall)
  | aside (op : Op Value)

def Event.run (h : Handle .classType) : Event → Op Value
  | .call c => c.ask h
  | .aside op => op

/-- The store after events. -/
def Store.past (store : Store) (h : Handle .classType) (events : List Event) : Store :=
  events.foldl (fun store event => (event.run h).left store) store

theorem Store.past_concat (store : Store) (h : Handle .classType) (events : List Event)
    (event : Event) :
    store.past h (events ++ [event]) = (event.run h).left (store.past h events) := by
  rw [past, List.foldl_append]
  rfl

theorem Store.past_append (store : Store) (h : Handle .classType) (events others : List Event) :
    store.past h (events ++ others) = (store.past h events).past h others :=
  List.foldl_append ..

namespace MemberCall

variable {store after : Store} {h : Handle .classType}

theorem growsTo_keyedItems {members : Value} {entries : List (Option Value × Value)}
    (gone : (Op.keyedItems members).run store = .ok entries after) : store.GrowsTo after := by
  have kept := Op.Keeps.keyedItems (P := store.GrowsTo) members store (.refl store)
  rwa [gone] at kept

/-- A call leaves the declarations where they are, and all containers that are there. -/
theorem grows (made : store.classes.Has h) (call : MemberCall) :
    ((call.ask h).left store).classes.size = store.classes.size ∧
      ((call.ask h).left store).nodes.Extends store.nodes := by
  have outcome := call.outcome made
  cases ran : (call.ask h).run store with
  | error fault after =>
      rw [Op.left_of_error ran]
      obtain ⟨nodes, more, rfl⟩ := Op.growsTo_of_ask_refused ran
      exact ⟨rfl, more⟩
  | ok value after =>
      rw [Op.left_of_ok ran]
      rw [ran] at outcome
      cases outcome with
      | filled gone fills =>
          obtain ⟨nodes, more, rfl⟩ := growsTo_keyedItems gone
          exact ⟨fills.classes, fills.nodes ▸ more⟩
      | addedConstant adds | addedProperty adds | addedMethod adds =>
          exact ⟨adds.classes, adds.nodes ▸ .refl _⟩

end MemberCall

/-! ## What was written -/

/-- Writes to a collection, in order: each name, and the member that was written under it. There is
none for a constant whose place another one took at once. -/
abbrev Writes := List (String × Option Value)

namespace Store

variable {h : Handle .classType} {start store after : Store} {events : List Event}
  {logs : MemberSort → Writes}

/-- What was written to each collection of a declaration: what it held at the start, then whatever
was added, or, since the collection was set all at once, the entries that it was set to. A call that
is refused writes nothing. -/
inductive Recorded (h : Handle .classType) (start : Store) :
    List Event → Store → (MemberSort → Writes) → Prop
  | start : Recorded h start [] start fun sort =>
      (start.held (sort.collection h)).map fun entry => (entry.1, some entry.2)
  | aside {events : List Event} {store : Store} {logs : MemberSort → Writes} {op : Op Value}
      (before : Recorded h start events store logs) :
      Recorded h start (events ++ [.aside op]) (op.left store) logs
  | refused {events : List Event} {store after : Store} {logs : MemberSort → Writes}
      {call : MemberCall} {fault : Fault} (before : Recorded h start events store logs)
      (ran : (call.ask h).run store = .error fault after) :
      Recorded h start (events ++ [.call call]) after logs
  | added {events : List Event} {store after : Store} {logs : MemberSort → Writes}
      {call : MemberCall} {word : Word} {member : Value}
      (before : Recorded h start events store logs) (named : call.name? = some (.word word))
      (ran : (call.ask h).run store = .ok member after) :
      Recorded h start (events ++ [.call call]) after
        (Function.update logs call.sort (logs call.sort ++ [(word.toText, some member)]))
  | filled {events : List Event} {store between after : Store} {logs : MemberSort → Writes}
      {sort : MemberSort} {members result : Value} {entries : List (Option Value × Value)}
      {written : Writes} (before : Recorded h start events store logs)
      (ran : ((MemberCall.set sort members).ask h).run store = .ok result after)
      (gone : (Op.keyedItems members).run store = .ok entries between)
      (puts : List.Forall₂ (Puts sort between after) entries written) :
      Recorded h start (events ++ [.call (.set sort members)]) after
        (Function.update logs sort written)

/-- Every collection is the map that is made of its log. -/
def Folds (h : Handle .classType) (store : Store) (logs : MemberSort → Writes) : Prop :=
  ∀ sort, (store.held (MemberSort.collection h sort)).map (fun entry => (entry.1, some entry.2)) =
    Entries.ofList (· == ·) (logs sort)

theorem folds_start (h : Handle .classType) (store : Store) :
    store.Folds h fun sort =>
      (store.held (sort.collection h)).map fun entry => (entry.1, some entry.2) := by
  intro sort
  rw [Entries.ofList_of_nodup]
  rw [List.map_map]
  exact store.nodup_keys _

theorem Folds.of_held (folds : store.Folds h logs)
    (held : ∀ sort, after.held (MemberSort.collection h sort) = store.held (sort.collection h)) :
    after.Folds h logs := fun sort => held sort ▸ folds sort

theorem Folds.update {sort : MemberSort} {written : Writes} (folds : store.Folds h logs)
    (others : ∀ other ≠ sort, after.held (other.collection h) = store.held (other.collection h))
    (held : (after.held (sort.collection h)).map (fun entry => (entry.1, some entry.2)) =
      Entries.ofList (· == ·) written) : after.Folds h (Function.update logs sort written) := by
  intro other
  by_cases same : other = sort
  · subst same
    rw [Function.update_self, held]
  · rw [Function.update_of_ne same, others other same, folds other]

theorem Folds.add {sort : MemberSort} {word : Word} {member : Value} (folds : store.Folds h logs)
    (adds : Adds h sort (.word word) member store after) :
    after.Folds h (Function.update logs sort (logs sort ++ [(word.toText, some member)])) := by
  refine folds.update adds.others ?_
  obtain ⟨_, same, -, held⟩ := adds.held
  cases same
  have written := @Entries.map_upsert _ _ _ _ (· == ·) (· == ·) id (fun _ _ => rfl) some
    word.toText member (store.held (sort.collection h))
  rw [Entries.ofList_concat, ← folds sort, held]
  exact written

/-- A call writes what it answers, or nothing when it is refused. -/
theorem Recorded.call (made : store.classes.Has h) (recorded : Recorded h start events store logs)
    (folds : store.Folds h logs) (call : MemberCall) :
    ∃ logs, Recorded h start (events ++ [.call call]) ((call.ask h).left store) logs ∧
      ((call.ask h).left store).Folds h logs := by
  have outcome := call.outcome made
  cases ran : (call.ask h).run store with
  | error fault after =>
      rw [Op.left_of_error ran]
      obtain ⟨nodes, -, rfl⟩ := Op.growsTo_of_ask_refused ran
      exact ⟨logs, .refused recorded ran, folds.of_held fun sort => by cases sort <;> rfl⟩
  | ok value after =>
      rw [Op.left_of_ok ran]
      rw [ran] at outcome
      cases outcome with
      | filled gone fills =>
          refine ⟨_, .filled recorded ran gone fills.puts, folds.update ?_ fills.held⟩
          obtain ⟨nodes, -, rfl⟩ := MemberCall.growsTo_keyedItems gone
          intro other differs
          rw [fills.others other differs]
          cases other <;> rfl
      | addedConstant adds | addedProperty adds | addedMethod adds =>
          obtain ⟨word, rfl, -⟩ := adds.held
          exact ⟨_, .added recorded rfl ran, folds.add adds⟩

/-! ## Runs -/

/-- No name stands twice in the collection, the names stand in the order in which they were first
written, and each has the member that was written under it last. -/
structure Latest (h : Handle .classType) (sort : MemberSort) (writes : Writes) (store : Store) :
    Prop where
  distinct : ((store.held (sort.collection h)).map Prod.fst).Nodup
  ordered : (store.held (sort.collection h)).map Prod.fst = (writes.map Prod.fst).eraseDups
  latest : ∀ name member, (name, member) ∈ store.held (sort.collection h) ↔
    Entries.find? (· == ·) name writes.reverse = some (some member)

theorem Folds.latest (folds : store.Folds h logs) (sort : MemberSort) :
    Latest h sort (logs sort) store where
  distinct := store.nodup_keys _
  ordered := by
    rw [← Entries.keys_ofList, ← folds sort, List.map_map]
    rfl
  latest name member := by
    rw [← Entries.find?_ofList, ← folds sort, Entries.find?_map fun _ => some,
      ← Entries.find?_eq_some_iff (store.nodup_keys _)]
    cases Entries.find? (· == ·) name (store.held (sort.collection h)) <;> simp

/-- A member is answered for its name, and what is no name of a member is not found. -/
structure Answers (h : Handle .classType) (sort : MemberSort) (store : Store) : Prop where
  found : ∀ word member, (word.toText, member) ∈ store.held (sort.collection h) →
    (Op.ask (.classType h) sort.getOne [.word word]).run store = .ok member store
  missed : ∀ key, (Op.ask (.classType h) sort.getOne [key]).run store =
      .error (.notFound sort.label key) store ↔
    store.nodes.unkeyable? key = none ∧
      ∀ word, key = .word word → word.toText ∉ (store.held (sort.collection h)).map Prod.fst
  unkeyed : ∀ key type, store.nodes.unkeyable? key = some type →
    (Op.ask (.classType h) sort.getOne [key]).run store = .error (.notKey type) store

theorem answers (commented : Op.Commented store) (h : Handle .classType) (sort : MemberSort) :
    store.Answers h sort where
  found word member held := by
    rw [← Entries.find?_eq_some_iff (store.nodup_keys _)] at held
    have key : store.nodes.unkeyable? (.word word) = none := rfl
    have read : (Value.word word).word? = some word := rfl
    rw [Op.run_getOne commented, key, read, Option.bind_some, held]
  missed key := by
    rw [Op.run_getOne commented]
    cases store.nodes.unkeyable? key with
    | some type => simp
    | none =>
        simp only [true_and]
        cases read : key.word?.bind fun word =>
            Entries.find? (· == ·) word.toText (store.held (sort.collection h)) with
        | some member =>
            obtain ⟨word, isWord, found⟩ := Option.bind_eq_some_iff.1 read
            refine ⟨nofun, fun absent => ?_⟩
            rw [Entries.find?_eq_none_iff.2 (absent word (Value.eq_of_word? isWord))] at found
            cases found
        | none =>
            refine ⟨fun _ word isWord => ?_, fun _ => rfl⟩
            rw [isWord] at read
            exact Entries.find?_eq_none_iff.1 read
  unkeyed key type unkeyable := by rw [Op.run_getOne commented, unkeyable]

/-- The collection was set all at once: it is the map that is made of what the entries of the input
put, each member under the name that it has, whatever its key. -/
def Refilled (h : Handle .classType) (sort : MemberSort) (members : Value) (store after : Store) :
    Prop :=
  ∃ entries written between, (Op.keyedItems members).run store = .ok entries between ∧
    List.Forall₂ (Puts sort between after) entries written ∧
    (after.held (sort.collection h)).map (fun entry => (entry.1, some entry.2)) =
      Entries.ofList (· == ·) written ∧
    ((∀ entry ∈ entries, between.Made entry.2) → after.InOrder (sort.collection h))

theorem refilled_of_run (made : store.classes.Has h) {sort : MemberSort} {members result : Value}
    (ran : ((MemberCall.set sort members).ask h).run store = .ok result after) :
    Refilled h sort members store after := by
  have outcome := (MemberCall.set sort members).outcome made
  rw [ran] at outcome
  cases outcome with
  | filled gone fills => exact ⟨_, _, _, gone, fills.puts, fills.held, fills.inOrder⟩

/-- What holds at the start and is kept by calls, and by whatever spares the declaration, holds
after all events. -/
theorem past_induct {p : List Event → Store → Prop} (first : p [] start)
    (call : ∀ events call, p events (start.past h events) →
      p (events ++ [.call call]) ((MemberCall.ask h call).left (start.past h events)))
    (aside : ∀ events op, op.Spares h → p events (start.past h events) →
      p (events ++ [.aside op]) (op.left (start.past h events)))
    (spared : ∀ op, .aside op ∈ events → op.Spares h) : p events (start.past h events) := by
  induction events using List.reverseRecOn with
  | nil => exact first
  | append_singleton events event ih =>
      have before := ih fun op member => spared op (List.mem_append_left _ member)
      rw [past_concat]
      cases event with
      | call c => exact call events c before
      | aside op => exact aside events op (spared op (by simp)) before

/-- The store after events has the declaration, all containers that were there, and comments that
can be read. -/
structure Lasts (h : Handle .classType) (start store : Store) : Prop where
  made : store.classes.Has h
  nodes : store.nodes.Extends start.nodes
  commented : Op.Commented store

theorem Lasts.call (lasts : Lasts h start store) (call : MemberCall) :
    Lasts h start ((call.ask h).left store) := by
  obtain ⟨size, nodes⟩ := call.grows lasts.made
  have kept : Op.Keeps Op.Commented (call.ask h) := Op.Keeps.ask fun _ _ comments => by
    cases call with
    | set sort members => cases sort <;> cases comments
    | _ => cases comments
  exact ⟨Nat.lt_of_lt_of_eq lasts.made size.symm, nodes.trans lasts.nodes,
    Op.leaves_iff.1 (kept _ lasts.commented)⟩

theorem Lasts.aside (lasts : Lasts h start store) {op : Op Value} (spares : op.Spares h) :
    Lasts h start (op.left store) :=
  ⟨spares.made _ lasts.made, (spares.nodes _).trans lasts.nodes,
    Op.leaves_iff.1 (spares.comments _ lasts.commented)⟩

theorem lasts_past (made : start.classes.Has h) (commented : Op.Commented start)
    (spared : ∀ op, .aside op ∈ events → op.Spares h) : Lasts h start (start.past h events) :=
  past_induct (p := fun _ => Lasts h start) ⟨made, .refl _, commented⟩
    (fun _ call lasts => lasts.call call) (fun _ _ spares lasts => lasts.aside spares) spared

/-- All writes are recorded, and the collections are what was written. -/
theorem exists_recorded (made : start.classes.Has h) (commented : Op.Commented start)
    (spared : ∀ op, .aside op ∈ events → op.Spares h) :
    ∃ logs, Recorded h start events (start.past h events) logs ∧
      (start.past h events).Folds h logs := by
  refine (past_induct (p := fun events store => Lasts h start store ∧
    ∃ logs, Recorded h start events store logs ∧ store.Folds h logs)
    ⟨⟨made, .refl _, commented⟩, _, .start, start.folds_start h⟩ ?_ ?_ spared).2
  · intro events call before
    obtain ⟨lasts, logs, recorded, folds⟩ := before
    exact ⟨lasts.call call, recorded.call lasts.made folds call⟩
  · intro events op spares before
    obtain ⟨lasts, logs, recorded, folds⟩ := before
    exact ⟨lasts.aside spares, logs, .aside recorded, folds.of_held (spares.held _)⟩

/-- A dictionary of members that was asked for stays as it is. -/
theorem lists_past {earlier later : List Event} {sort : MemberSort} (made : start.classes.Has h)
    (commented : Op.Commented start)
    (split : events = earlier ++ .aside (Op.ask (.classType h) sort.getAll []) :: later)
    (spared : ∀ op, .aside op ∈ events → op.Spares h) :
    ∃ dict between, (Op.ask (.classType h) sort.getAll []).run (start.past h earlier) =
        .ok (.node dict) between ∧
      ((start.past h events).nodes.get dict).Lists
        ((start.past h earlier).held (sort.collection h)) := by
  subst split
  obtain ⟨node, lists, ran⟩ := Op.run_getAll (start.past h earlier) h sort
  refine ⟨_, _, ran, ?_⟩
  rw [List.append_cons] at spared ⊢
  have first := lasts_past made commented fun op member => spared op (List.mem_append_left _ member)
  have last := lasts_past first.made first.commented fun op member =>
    spared op (List.mem_append_right _ member)
  rw [past_append]
  rw [past_concat] at last ⊢
  rw [show ((Event.aside (Op.ask (.classType h) sort.getAll [])).run h).left _ = _ from
    Op.left_of_ok ran] at last ⊢
  rw [last.nodes.get_next]
  exact lists

end Store

/-- Whatever calls write members of a declaration, refused ones among them, each collection has
every name once, where it was first written since the collection was last set all at once, and with
the member that was written under it last. Setting it all at once leaves the map of the entries,
each under the name of its member; members are found under these names and no others; and a
dictionary of them stays as it was when it was asked for. -/
theorem Session.Reachable.keeps_latest {session : Session} (reachable : session.Reachable)
    {h : Handle .classType} (made : session.store.classes.Has h) {events : List Event}
    (spared : ∀ op, .aside op ∈ events → op.Spares h) :
    (∃ logs, Store.Recorded h session.store events (session.store.past h events) logs ∧
      ∀ sort, Store.Latest h sort (logs sort) (session.store.past h events)) ∧
    (∀ sort, (session.store.past h events).Answers h sort) ∧
    (∀ sort members result after,
      ((MemberCall.set sort members).ask h).run (session.store.past h events) = .ok result after →
        Store.Refilled h sort members (session.store.past h events) after) ∧
    ∀ earlier (sort : MemberSort) later,
      events = earlier ++ .aside (Op.ask (.classType h) sort.getAll []) :: later →
        ∃ dict between, (Op.ask (.classType h) sort.getAll []).run
            (session.store.past h earlier) = .ok (.node dict) between ∧
          ((session.store.past h events).nodes.get dict).Lists
            ((session.store.past h earlier).held (sort.collection h)) := by
  have commented := reachable.commented
  have lasts := Store.lasts_past made commented spared
  obtain ⟨logs, recorded, folds⟩ := Store.exists_recorded made commented spared
  exact ⟨⟨logs, recorded, folds.latest⟩, Store.answers lasts.commented h,
    fun _ _ _ _ => Store.refilled_of_run lasts.made,
    fun _ _ _ split => Store.lists_past made commented split spared⟩

namespace Session

/-- A session with a class, and a constant that belongs to none. -/
def storefront : Session :=
  start.after [⟨.newClass (.atom (.word (.text "Shop"))) none, some "shop", .prompt⟩,
    ⟨.newMember .constant [("name", .atom (.word (.text "LIMIT")))], some "limit", .prompt⟩]

/-- A constant is added, asked for and renamed, one is refused, and then the constants are set all
at once, two of them under one name. -/
def restocking : List Event :=
  [.call (.addConstant (.text "MIN") (.atom (.int 1))),
    .aside (Op.ask (.classType ⟨0⟩) MemberSort.constant.getAll []),
    .call (.addConstant (.text "2ND") (.atom (.int 2))),
    .aside (Op.assign (.constant ⟨1⟩) .name (.text "LOW") >>= fun _ => pure .null),
    .aside (Op.newNode (.dict [(.text "LOW", .atom (.int 3)), (.text "a", .constant ⟨0⟩),
      (.text "b", .constant ⟨1⟩)])),
    .call (.set .constant (.node ⟨1⟩))]

theorem keeps_latest_restocking :
    let after := storefront.store.past ⟨0⟩ restocking
    after.held (.constants ⟨0⟩) = [("LOW", .constant ⟨1⟩), ("LIMIT", .constant ⟨0⟩)] ∧
      ∃ logs, Store.Recorded ⟨0⟩ storefront.store restocking after logs ∧
        ∀ sort, Store.Latest ⟨0⟩ sort (logs sort) after := by
  have reachable : storefront.Reachable := Reachable.after .start rfl
  have size : storefront.store.classes.size = 1 := by with_unfolding_all rfl
  have made : storefront.store.classes.Has ⟨0⟩ := Nat.lt_of_lt_of_eq Nat.zero_lt_one size.symm
  have spared (op : Op Value) (member : .aside op ∈ restocking) : op.Spares ⟨0⟩ := by
    simp only [restocking, List.mem_cons, List.not_mem_nil, reduceCtorEq, Event.aside.injEq,
      false_or, or_false] at member
    obtain rfl | rfl | rfl := member
    · exact .getAll _ _ _
    · exact .assign _ _ _ _
    · exact .newNode _ _
  exact ⟨by with_unfolding_all rfl, (reachable.keeps_latest made spared).1⟩

end Session

end PhpDecl
