import PhpDecl.Proofs.MemberCalls

/-!
# Collections that are written to

A call leaves a collection in which a member was added (`Store.Adds`), or which was filled with the
entries of an input (`Store.Fills`): it is the map that is made of what these put, one after the
other. Only the last of several values under one name is made into a constant that stays.
-/

namespace PhpDecl.Store

variable {store after : Store} {h : Handle .classType}

/-- Nothing but the collection of a declaration, and members, differs in the later store. -/
structure Changes (h : Handle .classType) (sort : MemberSort) (store after : Store) : Prop where
  others : ∀ other ≠ sort, after.held (other.collection h) = store.held (other.collection h)
  nodes : after.nodes = store.nodes
  classes : after.classes.size = store.classes.size
  names : ∀ value, store.Made value → after.nameOf value = store.nameOf value

/-- A member was added under a name. -/
structure Adds (h : Handle .classType) (sort : MemberSort) (name member : Value)
    (store after : Store) : Prop extends Changes h sort store after where
  sorted : member.sort? = some sort
  new : ¬store.Made member
  held : ∃ word, name = .word word ∧ after.nameOf member = word.toText ∧
    after.held (sort.collection h) =
      Entries.upsert (· == ·) word.toText member (store.held (sort.collection h))

/-- What an entry puts under a name: a member as it is, whatever its key, or the constant that is
made of its key and its value, unless a later entry takes its place at once. -/
inductive Puts (sort : MemberSort) (store after : Store) :
    Option Value × Value → String × Option Value → Prop
  | ready {key : Option Value} {member : Value} (is : member.sort? = some sort) :
      Puts sort store after (key, member) (store.nameOf member, some member)
  | made {key value : Value} {constant : Constant} {c : Handle .constant}
      (sorted : sort = .constant)
      (makes : store.nodes.Makes Constant.build Constant.name Constant.value key value constant)
      (other : value.sort? ≠ some .constant) (new : ¬store.constants.Has c)
      (has : after.constants.Has c) (holds : after.constants.get c = constant) :
      Puts sort store after (some key, value) (constant.name.text, some (.constant c))
  | passed {key value : Value} {constant : Constant} (sorted : sort = .constant)
      (makes : store.nodes.Makes Constant.build Constant.name Constant.value key value constant)
      (other : value.sort? ≠ some .constant) :
      Puts sort store after (some key, value) (constant.name.text, none)

/-- The collection was filled with the entries of an input: it is the map that is made of what they
put, one after the other, from the empty one on. -/
structure Fills (h : Handle .classType) (sort : MemberSort) (entries : List (Option Value × Value))
    (written : List (String × Option Value)) (store after : Store) : Prop
    extends Changes h sort store after where
  puts : List.Forall₂ (Puts sort store after) entries written
  held : (after.held (sort.collection h)).map (fun entry => (entry.1, some entry.2)) =
    Entries.ofList (· == ·) written

theorem Changes.of_change {sort : MemberSort} {bigger : Store}
    {change : SharedDeclaration → SharedDeclaration} (made : store.classes.Has h)
    (classes : bigger.classes = store.classes) (nodes : bigger.nodes = store.nodes)
    (names : ∀ value, store.Made value → bigger.nameOf value = store.nameOf value)
    (others : ∀ d, ∀ other ≠ sort, (change d).listed other = d.listed other) :
    Changes h sort store (bigger.changeClass h change) where
  others other differs := by
    rw [held_collection, held_collection, declaration_changeClass (classes ▸ made),
      others _ _ differs, classes]
  nodes := nodes
  classes := by
    rw [changeClass]
    dsimp only
    rw [Arena.size_set, classes]
  names value has := by
    rw [← names value has]
    cases value <;> rfl

theorem Adds.of_change {sort : MemberSort} {bigger : Store} {label : Label} {member : Value}
    {change : SharedDeclaration → SharedDeclaration} (made : store.classes.Has h)
    (classes : bigger.classes = store.classes) (nodes : bigger.nodes = store.nodes)
    (names : ∀ value, store.Made value → bigger.nameOf value = store.nameOf value)
    (others : ∀ d, ∀ other ≠ sort, (change d).listed other = d.listed other)
    (sorted : member.sort? = some sort) (new : ¬store.Made member)
    (named : bigger.nameOf member = label.word.toText)
    (written : ∀ d, (change d).listed sort =
      Entries.upsert (· == ·) label.word.toText member (d.listed sort)) :
    Adds h sort (.word label.word) member store (bigger.changeClass h change) where
  toChanges := .of_change made classes nodes names others
  sorted := sorted
  new := new
  held := by
    refine ⟨_, rfl, ?_, ?_⟩
    · rw [← named]
      cases member <;> rfl
    · rw [held_collection, held_collection, declaration_changeClass (classes ▸ made), written,
        classes]

/-- A collection that takes nothing but members takes each under its name. -/
theorem Fills.of_listed {α : Type} {sort : MemberSort} {entries : List (Option Value × Value)}
    {handles : List α} (wrap : α → Value) (label : α → Label)
    {change : SharedDeclaration → SharedDeclaration} (made : store.classes.Has h)
    (taken : List.Forall₂ (fun entry a => entry.2 = wrap a) entries handles)
    (sorted : ∀ a, (wrap a).sort? = some sort)
    (named : ∀ a, store.nameOf (wrap a) = (label a).word.toText)
    (others : ∀ d, ∀ other ≠ sort, (change d).listed other = d.listed other)
    (written : ∀ d, (change d).listed sort =
      (OrderedMap.ofList (handles.map fun a => (label a, a))).entries.map fun entry =>
        (entry.1.word.toText, wrap entry.2)) :
    Fills h sort entries (handles.map fun a => (store.nameOf (wrap a), some (wrap a))) store
      (store.changeClass h change) where
  toChanges := .of_change made rfl rfl (fun _ _ => rfl) others
  puts := by
    rw [List.forall₂_map_right_iff]
    refine taken.imp fun entry a same => ?_
    obtain ⟨key, member⟩ := entry
    cases same
    exact .ready (sorted a)
  held := by
    rw [held_collection, declaration_changeClass made, written, OrderedMap.entries_ofList,
      List.map_map]
    have folded := @Entries.map_ofList _ _ _ _ (· == ·) (· == ·) (fun label => label.word.toText)
      (fun _ _ => rfl) (fun a => some (wrap a)) (handles.map fun a => (label a, a))
    rw [List.map_map] at folded
    simp only [named]
    exact folded

/-! ## Constants that are made -/

/-- What drafts put under their names, where the members are what is there in the end. A new
constant that another entry takes the place of is not kept. -/
def putDrafts (members : List (String × Value)) :
    List (String × Draft .constant Constant) → List (String × Option Value)
  | [] => []
  | (name, .existing c) :: rest => (name, some (.constant c)) :: putDrafts members rest
  | (name, .new _) :: rest =>
      (name, if name ∈ rest.map Prod.fst then none else Entries.find? (· == ·) name members) ::
        putDrafts members rest

/-- The constant that a draft becomes: the one that it is, or a new one. -/
def Settled (store after : Store) (draft : Draft .constant Constant) (c : Handle .constant) :
    Prop :=
  draft = .existing c ∨ ¬store.constants.Has c ∧ after.constants.Has c ∧
    draft = .new (after.constants.get c)

/-- The member that is found under a name is what the last draft of the name becomes. -/
def Settles (store after : Store) (members : List (String × Value))
    (drafts : List (String × Draft .constant Constant)) : Prop :=
  ∀ name draft, Entries.find? (· == ·) name drafts.reverse = some draft →
    ∃ c, Entries.find? (· == ·) name members = some (.constant c) ∧ store.Settled after draft c

section

variable {members : List (String × Value)} {drafts : List (String × Draft .constant Constant)}

theorem keys_putDrafts : (putDrafts members drafts).map Prod.fst = drafts.map Prod.fst := by
  induction drafts with
  | nil => rfl
  | cons first rest ih =>
      obtain ⟨name, _ | _⟩ := first <;> rw [putDrafts, List.map_cons, List.map_cons, ih]

theorem Settles.tail {first : String × Draft .constant Constant}
    (settles : store.Settles after members (first :: drafts)) :
    store.Settles after members drafts := by
  intro name draft latest
  refine settles name draft ?_
  rw [List.reverse_cons, Entries.find?_append, latest]
  rfl

/-- A draft that no later one takes the place of is the last one of its name. -/
theorem Settles.head {name : String} {draft : Draft .constant Constant}
    (settles : store.Settles after members ((name, draft) :: drafts))
    (last : name ∉ drafts.map Prod.fst) :
    ∃ c, Entries.find? (· == ·) name members = some (.constant c) ∧
      store.Settled after draft c := by
  refine settles name draft ?_
  have absent : name ∉ drafts.reverse.map Prod.fst := by simpa using last
  rw [List.reverse_cons, Entries.find?_append, Entries.find?_eq_none_iff.2 absent]
  simp [Entries.find?]

/-- What is put last under a name is what is there in the end. -/
theorem Settles.find?_putDrafts (settles : store.Settles after members drafts) (name : String) :
    Entries.find? (· == ·) name (putDrafts members drafts).reverse =
      (Entries.find? (· == ·) name drafts.reverse).map fun _ =>
        Entries.find? (· == ·) name members := by
  induction drafts with
  | nil => rfl
  | cons first rest ih =>
      obtain ⟨other, draft⟩ := first
      have later := ih settles.tail
      obtain ⟨put, split⟩ : ∃ put, putDrafts members ((other, draft) :: rest) =
          (other, put) :: putDrafts members rest := by
        cases draft <;> exact ⟨_, rfl⟩
      rw [split, List.reverse_cons, List.reverse_cons, Entries.find?_append, Entries.find?_append,
        later]
      cases found : Entries.find? (· == ·) name rest.reverse with
      | some draft => rfl
      | none =>
          by_cases here : other = name
          · subst here
            have last : other ∉ rest.map Prod.fst := by
              simpa using Entries.find?_eq_none_iff.1 found
            obtain ⟨c, held, settled⟩ := settles.head last
            cases draft with
            | existing e =>
                obtain same | ⟨-, -, same⟩ := settled
                · cases same
                  cases split
                  simp [Entries.find?, held]
                · cases same
            | new constant =>
                rw [putDrafts, if_neg last] at split
                cases split
                simp [Entries.find?]
          · simp [Entries.find?, here]

/-- Members that are listed, each in the first place of its name, are what the drafts put. -/
theorem Settles.members_eq (settles : store.Settles after members drafts)
    (keys : members.map Prod.fst = (drafts.map Prod.fst).eraseDups)
    (distinct : (members.map Prod.fst).Nodup) :
    members.map (fun entry => (entry.1, some entry.2)) =
      Entries.ofList (· == ·) (putDrafts members drafts) := by
  refine Entries.ext_of_find? ?_ ?_ fun name => ?_
  · rw [Entries.keys_ofList, keys_putDrafts, ← keys, List.map_map]
    rfl
  · rw [List.map_map]
    exact distinct
  · rw [Entries.find?_map fun _ => some, Entries.find?_ofList, settles.find?_putDrafts]
    cases latest : Entries.find? (· == ·) name drafts.reverse with
    | some draft =>
        obtain ⟨c, held, -⟩ := settles name draft latest
        rw [held]
        rfl
    | none =>
        have absent : name ∉ members.map Prod.fst := by
          rw [keys, List.mem_eraseDups]
          simpa using Entries.find?_eq_none_iff.1 latest
        rw [Entries.find?_eq_none_iff.2 absent]
        rfl

theorem Settles.puts {entries : List (Option Value × Value)}
    {taken : List (Draft .constant Constant)}
    (each : List.Forall₂ (fun entry draft => store.Drafted entry (.ok draft)) entries taken)
    (settles : store.Settles after members
      (taken.map fun draft => ((store.constantName draft).text, draft))) :
    List.Forall₂ (Puts .constant store after) entries
      (putDrafts members (taken.map fun draft => ((store.constantName draft).text, draft))) := by
  induction each with
  | nil => exact .nil
  | @cons entry draft entries taken drafted _ ih =>
      rw [List.map_cons] at settles ⊢
      have others := ih settles.tail
      cases drafted with
      | ready key c => exact .cons (.ready rfl) others
      | @made label value constant makes other =>
          rw [putDrafts]
          refine .cons ?_ others
          split
          next later => exact .passed rfl makes other
          next last =>
            obtain ⟨c, held, settled⟩ := settles.head last
            rw [held]
            obtain same | ⟨new, has, same⟩ := settled
            · cases same
            · cases same
              exact .made rfl makes other new has rfl

end

/-- After all drafts were written and settled there is, under each name, what the last draft of the
name became. -/
theorem settles_mapAccum {map : OrderedMap Label (Draft .constant Constant)}
    {settled : OrderedMap Label (Handle .constant)}
    (settling : Entries.mapAccum Arena.settle store.constants map.entries =
      (after.constants, settled.entries))
    {drafts : List (String × Draft .constant Constant)}
    (written : map.entries.map (fun entry => (entry.1.word.toText, entry.2)) =
      Entries.ofList (· == ·) drafts) :
    store.Settles after
      (settled.entries.map fun entry => (entry.1.word.toText, Value.constant entry.2)) drafts := by
  intro name last latest
  rw [← Entries.find?_ofList, ← written] at latest
  have distinct : ((map.entries.map fun entry => (entry.1.word.toText, entry.2)).map
      Prod.fst).Nodup := by
    rw [List.map_map]
    exact map.nodup_texts
  have member := (Entries.find?_eq_some_iff distinct).1 latest
  obtain ⟨⟨label, draft⟩, inside, same⟩ := List.mem_map.1 member
  cases same
  -- Settling keeps the keys, so that there is a constant for the draft.
  have keys := Entries.keys_mapAccum Arena.settle store.constants map.entries
  have settles := (Arena.mapAccum_settle map.entries store.constants).2.2
  rw [settling] at keys settles
  obtain ⟨⟨_, c⟩, held, rfl⟩ := List.mem_map.1 (keys ▸ List.mem_map_of_mem inside)
  obtain ⟨other, there, became⟩ := settles _ held
  have second := (Entries.find?_eq_some_iff distinct).2 (List.mem_map.2 ⟨_, there, rfl⟩)
  cases latest.symm.trans second
  refine ⟨c, (Entries.find?_eq_some_iff ?_).2 (List.mem_map.2 ⟨_, held, rfl⟩), became⟩
  rw [List.map_map]
  exact settled.nodup_texts

/-- Constants that are given, and those that are made of values, are taken each under its name. -/
theorem Fills.of_drafts {entries : List (Option Value × Value)}
    {drafts : List (Draft .constant Constant)} {constants : Arena .constant Constant}
    {settled : OrderedMap Label (Handle .constant)} (made : store.classes.Has h)
    (drafted : entries.mapM store.constantDraft = .ok drafts)
    {map : OrderedMap Label (Draft .constant Constant)}
    (ordered : OrderedMap.ofList (drafts.map fun draft =>
      (Label.ofIdentifier (store.constantName draft), draft)) = map)
    (result : map.mapAccum Arena.settle store.constants = (constants, settled)) :
    ∃ written, Fills h .constant entries written store
      (({ store with constants } : Store).changeClass h fun d =>
        { d with constants := settled }) := by
  have written := @Entries.map_ofList _ _ _ _ (· == ·) (· == ·) (fun label => label.word.toText)
    (fun _ _ => rfl) (fun draft => draft) (drafts.map fun draft =>
      (Label.ofIdentifier (store.constantName draft), draft))
  rw [← OrderedMap.entries_ofList, ordered, List.map_map] at written
  have settling : Entries.mapAccum Arena.settle store.constants map.entries =
      (constants, settled.entries) :=
    congrArg (fun result => (result.1, result.2.entries)) result
  have keys := Entries.keys_mapAccum Arena.settle store.constants map.entries
  have kept := (Arena.mapAccum_settle map.entries store.constants).2.1
  rw [settling] at keys kept
  have settles : store.Settles (({ store with constants } : Store).changeClass h
      fun d => { d with constants := settled }) _ _ := settles_mapAccum settling written
  have present : ({ store with constants } : Store).classes.Has h := made
  have held := congrArg (fun d : SharedDeclaration => d.listed .constant)
    (declaration_changeClass present fun d => { d with constants := settled })
  refine ⟨_, .of_change made rfl rfl ?_ fun d _ => d.listed_with_constants _, settles.puts ?_, ?_⟩
  · intro value has
    cases value with
    | constant c => exact congrArg (fun constant : Constant => constant.name.text) (kept c has)
    | _ => rfl
  · exact (Graph.forall₂_of_mapM drafted).imp fun entry _ same => same.subst (store.drafted entry)
  · rw [held_collection, held]
    refine settles.members_eq ?_ ?_
    · have texts := congrArg (List.map fun label : Label => label.word.toText) keys
      rw [← Entries.keys_ofList, ← written]
      simp only [List.map_map] at texts ⊢
      exact texts
    · rw [List.map_map]
      exact settled.nodup_texts

/-- A collection that was filled is in order, whatever its members were called before. -/
theorem Fills.inOrder {sort : MemberSort} {entries : List (Option Value × Value)}
    {written : List (String × Option Value)} (fills : Fills h sort entries written store after)
    (made : ∀ entry ∈ entries, store.Made entry.2) : after.InOrder (sort.collection h) := by
  intro entry member
  have listed : (entry.1, some entry.2) ∈ Entries.ofList (· == ·) written :=
    fills.held ▸ List.mem_map_of_mem member
  obtain ⟨⟨name, put⟩, inside, value, key⟩ := Entries.of_mem_ofList _ listed
  obtain ⟨given, here, puts⟩ := Graph.exists_of_mem_right fills.puts inside
  have same : entry.1 = name := key.elim id eq_of_beq
  obtain ⟨_, member⟩ := entry
  cases puts with
  | ready is =>
      cases value
      exact (fills.names _ (made _ here)).trans same.symm
  | @made key value constant c sorted makes other new has holds =>
      cases value
      exact (congrArg (fun constant : Constant => constant.name.text) holds).trans same.symm
  | passed => cases value

end PhpDecl.Store
