import Mathlib.Data.List.Induction
import PhpDecl.OrderedMap
import PhpDecl.Proofs.Entries
import PhpDecl.Proofs.Reading.Dump

/-!
# Keys that are left out

When the code of an array is run, its entries are put under their keys one after the other. A key
that is the decimal text of a 64-bit integer becomes that integer, and an entry without a key gets
the integer that comes after the largest one so far. The writer leaves out the keys that it counts
to by itself, but counts only the integers among the keys. So every item gets its own key just
when no key is left out behind a text that stands for a larger integer
(`Graph.keepsKeys_iff_of_dump`).
-/

namespace PhpDecl

/-! ## Arrays that are run -/

/-- A key of an array that has been run. -/
inductive ArrayKey
  | int (n : Int)
  | text (content : List Char)
  deriving DecidableEq, Repr

namespace ArrayKey

/-- Whether an integer has 64 bits. -/
def isMachineInt (n : Int) : Bool := -9223372036854775808 ≤ n && n ≤ 9223372036854775807

/-- The 64-bit integer that a text is the decimal text of, if it is one. -/
def integer? (content : List Char) : Option Int :=
  (Reading.intOf? content).filter fun n => isMachineInt n && Literal.intText n == content

theorem integer?_eq_some_iff {content : List Char} {n : Int} :
    integer? content = some n ↔ isMachineInt n = true ∧ Literal.intText n = content := by
  rw [integer?, Option.filter_eq_some_iff, Bool.and_eq_true, beq_iff_eq]
  constructor
  · rintro ⟨-, fits, same⟩
    exact ⟨fits, same⟩
  · rintro ⟨fits, rfl⟩
    exact ⟨Reading.intOf?_intText n, fits, rfl⟩

/-- The key that a text becomes. -/
def ofText (content : List Char) : ArrayKey :=
  match integer? content with
  | some n => .int n
  | none => .text content

/-- The key that a written one becomes. -/
def ofReading? : Reading → Option ArrayKey
  | .int n => if isMachineInt n then some (.int n) else none
  | .text content => some (ofText content)
  | _ => none

def int? : ArrayKey → Option Int
  | .int n => some n
  | .text _ => none

theorem int?_ofText (content : List Char) : (ofText content).int? = integer? content := by
  rw [ofText]
  split
  · next n numeral => exact numeral.symm
  · next none => exact none.symm

/-- The next integer behind a key, where `next` was the one in front of it. -/
def nextAfter (next : Int) : ArrayKey → Int
  | .int n => max next (n + 1)
  | .text _ => next

end ArrayKey

/-- The least integer that is not negative and larger than all of these. -/
def nextFrom (integers : List Int) : Int := integers.foldl (fun next n => max next (n + 1)) 0

theorem nextFrom_concat (integers : List Int) (n : Int) :
    nextFrom (integers ++ [n]) = max (nextFrom integers) (n + 1) := by
  simp [nextFrom]

theorem nextFrom_le_iff {integers : List Int} {bound : Int} :
    nextFrom integers ≤ bound ↔ 0 ≤ bound ∧ ∀ n ∈ integers, n < bound := by
  induction integers using List.reverseRecOn with
  | nil => simp [nextFrom]
  | append_singleton integers n ih =>
      rw [nextFrom_concat, Int.max_le, ih, Int.add_one_le_iff]
      simp only [List.mem_append, List.mem_singleton]
      constructor
      · rintro ⟨⟨positive, below⟩, last⟩
        refine ⟨positive, fun m member => ?_⟩
        rcases member with earlier | rfl
        · exact below m earlier
        · exact last
      · rintro ⟨positive, below⟩
        exact ⟨⟨positive, fun m member => below m (.inl member)⟩, below n (.inr rfl)⟩

/-- An entry of an array as it is written: its key, unless it is left out, and its item. -/
structure WrittenEntry where
  key : Option (List Char)
  item : List Char
  deriving DecidableEq, Repr

def WrittenEntry.text (entry : WrittenEntry) : List Char :=
  match entry.key with
  | none => entry.item
  | some key => key ++ " => ".toList ++ entry.item

/-- An array that is being run: its items under their keys, and the key of an entry without one. -/
structure ArrayState where
  items : OrderedMap ArrayKey (List Char)
  next : Int

namespace ArrayState

def empty : ArrayState := ⟨.empty, 0⟩

def add (state : ArrayState) (key : ArrayKey) (item : List Char) : ArrayState :=
  ⟨state.items.upsert key item, key.nextAfter state.next⟩

/-- Put an item under its key: the one that is written, or the next integer. -/
def step (state : ArrayState) (entry : WrittenEntry) : Option ArrayState :=
  match entry.key with
  | none => some (state.add (.int state.next) entry.item)
  | some key => do return state.add (← ArrayKey.ofReading? (← Reading.ofText? key)) entry.item

/-- Run the entries of an array one after the other. -/
def run (state : ArrayState) (entries : List WrittenEntry) : Option ArrayState :=
  entries.foldlM step state

end ArrayState

/-! ## Arrays that are written -/

/-- A key of a dictionary: a 64-bit integer or a text. -/
inductive GivenKey
  | int (n : Int) (fits : ArrayKey.isMachineInt n = true)
  | word (w : Word)
  deriving DecidableEq

namespace GivenKey

def atom : GivenKey → Atom
  | .int n _ => .int n
  | .word w => .word w

def literal (key : GivenKey) : Literal := .atom key.atom

/-- The integer that the key is given as, if it is one. -/
def int? : GivenKey → Option Int
  | .int n _ => some n
  | .word _ => none

/-- The key of an array that the key becomes. -/
def converted : GivenKey → ArrayKey
  | .int n _ => .int n
  | .word w => .ofText w.chars

/-- The key that the writer counts to behind these. -/
def counted (keys : List GivenKey) : Int := nextFrom (keys.filterMap int?)

/-- The key that an array has come to behind these. -/
def reached (keys : List GivenKey) : Int := nextFrom (keys.filterMap fun key => key.converted.int?)

/-- If the key is left out behind others, then all texts among these that stand for integers stand
for smaller ones. -/
def IsSafeBehind (key : GivenKey) (front : List GivenKey) : Prop :=
  ∀ n fits, key = .int n fits → n = counted front →
    ∀ w m, .word w ∈ front → ArrayKey.integer? w.chars = some m → m < n

/-- Every key that is left out is left out safely. -/
def LeavesOutSafely (keys : List GivenKey) : Prop :=
  ∀ front key, front ++ [key] <+: keys → key.IsSafeBehind front

end GivenKey

namespace Literal

/-- The entries of a keyed array as they are written, where the reader supplies `next` for the
first key if none is written. -/
def written (layout : Layout) (level : Nat) (next : Int) :
    List (Literal × Literal) → List WrittenEntry
  | [] => []
  | (key, item) :: rest =>
      ⟨if key.intKey? == some next then none else some (textAt layout level key),
        textAt layout level item⟩ :: written layout level (nextKey next key) rest

theorem entryTexts_eq (layout : Layout) (level : Nat) (next : Int)
    (entries : List (Literal × Literal)) : entryTexts layout level next entries =
      (written layout level next entries).map WrittenEntry.text := by
  induction entries generalizing next with
  | nil => rfl
  | cons entry entries ih =>
      obtain ⟨key, item⟩ := entry
      rw [entryTexts, written, List.map_cons, ih, WrittenEntry.text]
      split
      · rfl
      · rfl

/-- An entry with the literal of its key. -/
def keyed (entry : GivenKey × Literal) : Literal × Literal := (entry.1.literal, entry.2)

/-- An entry that is put under its own key. -/
def owned (layout : Layout) (level : Nat) (entry : GivenKey × Literal) : ArrayKey × List Char :=
  (entry.1.converted, entry.2.textAt layout level)

/-- When the entries are run as they are written, every item gets what its own key becomes. -/
def KeepsKeys (layout : Layout) (level : Nat) (entries : List (GivenKey × Literal)) : Prop :=
  ∃ state, ArrayState.empty.run (written layout level 0 (entries.map keyed)) = some state ∧
    state.items.entries = entries.map (owned layout level)

end Literal

/-! ## One entry -/

namespace ArrayState

variable {state after : ArrayState}

/-- What has been put under a key stays under it. -/
theorem keys_prefix_step {entry : WrittenEntry} (run : state.step entry = some after) :
    state.items.keys <+: after.items.keys := by
  rw [step] at run
  split at run
  · cases run
    exact Entries.keys_prefix_upsert
  · obtain ⟨reading, _, run⟩ := Option.bind_eq_some_iff.1 run
    obtain ⟨key, _, run⟩ := Option.bind_eq_some_iff.1 run
    cases run
    exact Entries.keys_prefix_upsert

theorem keys_prefix_run {entries : List WrittenEntry} (run : state.run entries = some after) :
    state.items.keys <+: after.items.keys := by
  induction entries generalizing state with
  | nil =>
      cases run
      exact List.prefix_rfl
  | cons entry entries ih =>
      rw [ArrayState.run, List.foldlM_cons] at run
      obtain ⟨between, first, others⟩ := Option.bind_eq_some_iff.1 run
      exact (keys_prefix_step first).trans (ih others)

/-- A key that is not there yet comes behind the others. -/
theorem entries_add {key : ArrayKey} (absent : key ∉ state.items.keys) (item : List Char) :
    (state.add key item).items.entries = state.items.entries ++ [(key, item)] := by
  refine Entries.upsert_of_absent fun k member => ?_
  rw [beq_eq_false_iff_ne]
  rintro rfl
  exact absent member

end ArrayState

namespace GivenKey

/-- A key that is written becomes what it should. -/
theorem ofReading?_textAt (key : GivenKey) (layout : Layout) (level : Nat) :
    (Reading.ofText? (key.literal.textAt layout level)).bind ArrayKey.ofReading? =
      some key.converted := by
  cases key with
  | int n fits =>
      have read : Reading.ofText? (Literal.intText n) = some (.int n) :=
        (Reading.spells_word (Reading.ofWord?_intText n)).ofText?
      change (Reading.ofText? (Literal.intText n)).bind _ = _
      rw [read, Option.bind_some, ArrayKey.ofReading?, if_pos fits]
      rfl
  | word w =>
      have read : Reading.ofText? (Text.Quoted.encode w.chars) = some (.text w.chars) :=
        (Reading.spells_encode w.chars).ofText?
      change (Reading.ofText? (Text.Quoted.encode w.chars)).bind _ = _
      rw [read]
      rfl

theorem counted_concat (keys : List GivenKey) (key : GivenKey) :
    counted (keys ++ [key]) = key.literal.nextKey (counted keys) := by
  rw [counted, List.filterMap_append]
  cases key with
  | int n fits =>
      change nextFrom (keys.filterMap int? ++ [n]) = max (n + 1) (counted keys)
      rw [nextFrom_concat, Int.max_comm, counted]
  | word w =>
      change nextFrom (keys.filterMap int? ++ []) = counted keys
      rw [List.append_nil, counted]

theorem reached_concat (keys : List GivenKey) (key : GivenKey) :
    reached (keys ++ [key]) = key.converted.nextAfter (reached keys) := by
  rw [reached, List.filterMap_append]
  cases become : key.converted with
  | int n =>
      have one : [key].filterMap (fun key => key.converted.int?) = [n] := by
        rw [List.filterMap_cons, become]
        rfl
      rw [one, nextFrom_concat]
      rfl
  | text content =>
      have none : [key].filterMap (fun key => key.converted.int?) = [] := by
        rw [List.filterMap_cons, become]
        rfl
      rw [none, List.append_nil]
      rfl

/-- Behind other keys a key that is left out is safe just when the array has come to it, too. -/
theorem isSafeBehind_iff {front : List GivenKey} {n : Int} {fits : ArrayKey.isMachineInt n = true}
    (counts : n = counted front) : (int n fits).IsSafeBehind front ↔ reached front = n := by
  obtain ⟨positive, below⟩ := nextFrom_le_iff.1 (Int.le_of_eq counts.symm)
  obtain ⟨notNegative, passed⟩ := nextFrom_le_iff.1 (Int.le_refl (reached front))
  constructor
  · intro safe
    apply Int.le_antisymm
    · refine nextFrom_le_iff.2 ⟨positive, fun m member => ?_⟩
      obtain ⟨key, inside, become⟩ := List.mem_filterMap.1 member
      cases key with
      | int k _ => exact below m (List.mem_filterMap.2 ⟨_, inside, become⟩)
      | word w =>
          rw [converted, ArrayKey.int?_ofText] at become
          exact safe n fits rfl counts w m inside become
    · rw [counts]
      refine nextFrom_le_iff.2 ⟨notNegative, fun m member => passed m ?_⟩
      obtain ⟨key, inside, given⟩ := List.mem_filterMap.1 member
      cases key with
      | int k _ => exact List.mem_filterMap.2 ⟨_, inside, given⟩
      | word w => cases given
  · intro same k _ key _ w m inside numeral
    cases key
    rw [← same]
    refine passed m (List.mem_filterMap.2 ⟨_, inside, ?_⟩)
    rw [converted, ArrayKey.int?_ofText, numeral]

end GivenKey

/-! ## All entries -/

/-- The array has come to stand behind these keys: they are its own, and it counts on from them. -/
structure ArrayState.Behind (state : ArrayState) (front : List GivenKey) : Prop where
  keys : state.items.keys = front.map GivenKey.converted
  next : state.next = GivenKey.reached front

namespace ArrayState.Behind

variable {state after : ArrayState} {front : List GivenKey} {key : GivenKey}

theorem add (behind : state.Behind front) (absent : key.converted ∉ front.map GivenKey.converted)
    (item : List Char) : (state.add key.converted item).Behind (front ++ [key]) where
  keys := by
    rw [← behind.keys] at absent
    rw [OrderedMap.keys, entries_add absent, List.map_append, ← OrderedMap.keys, behind.keys,
      List.map_append]
    rfl
  next := by
    rw [GivenKey.reached_concat, ← behind.next]
    rfl

/-- The integers that the array counts to are free. -/
theorem next_absent (behind : state.Behind front) : .int state.next ∉ state.items.keys := by
  rw [behind.keys, behind.next]
  intro member
  obtain ⟨key, inside, same⟩ := List.mem_map.1 member
  have below := (nextFrom_le_iff.1 (Int.le_refl (GivenKey.reached front))).2
  exact Int.lt_irrefl _ (below _ (List.mem_filterMap.2 ⟨key, inside, by rw [same]; rfl⟩))

variable {layout : Layout} {level : Nat} {item : Literal}

/-- An entry whose key is safe goes under its own key. -/
theorem step_of_isSafe (behind : state.Behind front) (safe : key.IsSafeBehind front) :
    state.step ⟨if key.literal.intKey? == some (GivenKey.counted front) then none
        else some (key.literal.textAt layout level), item.textAt layout level⟩ =
      some (state.add key.converted (item.textAt layout level)) := by
  split
  next omitted =>
    cases key with
    | word w => cases omitted
    | int n fits =>
        have counts : n = GivenKey.counted front := Option.some.inj (eq_of_beq omitted)
        rw [step, behind.next, (GivenKey.isSafeBehind_iff counts).1 safe]
        rfl
  next =>
    obtain ⟨reading, read, become⟩ :=
      Option.bind_eq_some_iff.1 (key.ofReading?_textAt layout level)
    simp [step, read, become]

/-- An entry whose key is not safe goes under a key that is not its own. -/
theorem exists_step_of_not_isSafe (behind : state.Behind front) (astray : ¬key.IsSafeBehind front) :
    ∃ n, key.converted ≠ .int n ∧ .int n ∉ state.items.keys ∧
      state.step ⟨if key.literal.intKey? == some (GivenKey.counted front) then none
          else some (key.literal.textAt layout level), item.textAt layout level⟩ =
        some (state.add (.int n) (item.textAt layout level)) := by
  cases key with
  | word w =>
      refine absurd (fun n fits same => ?_) astray
      cases same
  | int n fits =>
      have counts : n = GivenKey.counted front := by
        by_contra differs
        refine astray fun k fits same counts => ?_
        cases same
        exact absurd counts differs
      refine ⟨state.next, ?_, behind.next_absent, ?_⟩
      · rw [GivenKey.isSafeBehind_iff counts, ← behind.next] at astray
        rw [GivenKey.converted, ne_eq, ArrayKey.int.injEq]
        exact fun same => astray same.symm
      · have omitted : ((GivenKey.int n fits).literal.intKey? ==
            some (GivenKey.counted front)) = true := by
          rw [← counts]
          exact beq_self_eq_true _
        rw [if_pos omitted]
        rfl

end ArrayState.Behind

namespace GivenKey

variable {front rest : List GivenKey} {key : GivenKey}

/-- Every key of the rest is safe behind the keys in front of it. -/
def AllSafeBehind (front rest : List GivenKey) : Prop :=
  ∀ more key, more ++ [key] <+: rest → key.IsSafeBehind (front ++ more)

theorem allSafeBehind_nil : AllSafeBehind front [] := by
  intro more key inside
  have length := inside.length_le
  simp at length

theorem allSafeBehind_cons_iff : AllSafeBehind front (key :: rest) ↔
    key.IsSafeBehind front ∧ AllSafeBehind (front ++ [key]) rest := by
  constructor
  · intro safe
    constructor
    · have first : [] ++ [key] <+: key :: rest := List.cons_prefix_cons.2 ⟨rfl, List.nil_prefix⟩
      have here := safe [] key first
      rwa [List.append_nil] at here
    · intro more last inside
      have there := safe (key :: more) last (List.cons_prefix_cons.2 ⟨rfl, inside⟩)
      rwa [List.append_cons] at there
  · rintro ⟨here, there⟩ more last inside
    cases more with
    | nil =>
        obtain ⟨rfl, -⟩ := List.cons_prefix_cons.1 inside
        rwa [List.append_nil]
    | cons first more =>
        obtain ⟨rfl, later⟩ := List.cons_prefix_cons.1 inside
        rw [List.append_cons]
        exact there more last later

instance (key : GivenKey) (front : List GivenKey) : Decidable (key.IsSafeBehind front) :=
  match key with
  | .word _ => isTrue fun _ _ same => nomatch same
  | .int n fits =>
      if counts : n = counted front then decidable_of_iff _ (isSafeBehind_iff counts).symm
      else isTrue fun _ _ same counts' => by
        cases same
        exact absurd counts' counts

instance decidableAllSafeBehind :
    (front rest : List GivenKey) → Decidable (AllSafeBehind front rest)
  | _, [] => isTrue allSafeBehind_nil
  | front, key :: rest =>
      have := decidableAllSafeBehind (front ++ [key]) rest
      decidable_of_iff _ allSafeBehind_cons_iff.symm

instance (keys : List GivenKey) : Decidable (LeavesOutSafely keys) :=
  inferInstanceAs (Decidable (AllSafeBehind [] keys))

end GivenKey

namespace Literal

variable {layout : Layout} {level : Nat}

/-- From where an array has got its own keys, it goes on to do so just when all keys are safe. -/
theorem exists_run_written_iff {front : List GivenKey} {rest : List (GivenKey × Literal)}
    {state : ArrayState} (behind : state.Behind front)
    (distinct : ((front ++ rest.map Prod.fst).map GivenKey.converted).Nodup) :
    (∃ after, state.run (written layout level (GivenKey.counted front) (rest.map keyed)) =
        some after ∧ after.items.entries = state.items.entries ++ rest.map (owned layout level)) ↔
      GivenKey.AllSafeBehind front (rest.map Prod.fst) := by
  induction rest generalizing front state with
  | nil =>
      refine iff_of_true ⟨state, rfl, (List.append_nil _).symm⟩ GivenKey.allSafeBehind_nil
  | cons entry rest ih =>
      obtain ⟨key, item⟩ := entry
      rw [List.map_cons, List.append_cons] at distinct
      rw [List.map_cons, List.map_cons, List.map_cons, GivenKey.allSafeBehind_cons_iff, keyed,
        written, ArrayState.run, List.foldlM_cons]
      by_cases safe : key.IsSafeBehind front
      · have absent : key.converted ∉ front.map GivenKey.converted := by
          rw [List.map_append, List.map_append] at distinct
          intro member
          have apart := (List.nodup_append.1 (List.nodup_append.1 distinct).1).2.2
          exact apart _ member _ (.head _) rfl
        have ih := ih (behind.add absent (item.textAt layout level)) distinct
        rw [← behind.keys] at absent
        rw [GivenKey.counted_concat, ArrayState.entries_add absent, List.append_assoc] at ih
        rw [behind.step_of_isSafe safe, and_iff_right safe, ← ih]
        rfl
      · obtain ⟨n, differs, absent, step⟩ := behind.exists_step_of_not_isSafe safe
        rw [step]
        refine iff_of_false ?_ fun both => safe both.1
        rintro ⟨after, run, entries⟩
        -- The wrong key comes behind the right ones, where the right one should stand.
        have stays := ArrayState.keys_prefix_run run
        rw [OrderedMap.keys, OrderedMap.keys, ArrayState.entries_add absent, entries,
          List.map_append, List.map_append, List.prefix_append_right_inj, List.map_cons,
          List.map_cons] at stays
        exact differs (List.cons_prefix_cons.1 stays).1.symm

/-- Every item gets its own key just when every key that is left out is safe. -/
theorem keepsKeys_iff {entries : List (GivenKey × Literal)}
    (distinct : (entries.map fun entry => entry.1.converted).Nodup) (layout : Layout)
    (level : Nat) : KeepsKeys layout level entries ↔
      GivenKey.LeavesOutSafely (entries.map Prod.fst) := by
  have start : ArrayState.empty.Behind [] := ⟨rfl, rfl⟩
  have own : (([] ++ entries.map Prod.fst).map GivenKey.converted).Nodup := by
    rw [List.nil_append, List.map_map]
    exact distinct
  exact exists_run_written_iff start own

end Literal

namespace Graph

variable {graph : Graph} {h : Handle .node}

/-- Entries under such keys are spelled out with their keys as they are. -/
theorem exists_of_mapM_keyed {depth : Nat} {entries : List (GivenKey × Value)}
    {literals : List (Literal × Literal)}
    (all : (entries.map fun entry => (Value.atom entry.1.atom, entry.2)).mapM
      (unfoldEntry (graph.unfold depth)) = .ok literals) :
    ∃ spelled : List (GivenKey × Literal), literals = spelled.map Literal.keyed ∧
      spelled.map Prod.fst = entries.map Prod.fst ∧
      List.Forall₂ (fun entry literal => graph.unfold depth entry.2 = .ok literal.2)
        entries spelled := by
  induction entries generalizing literals with
  | nil =>
      cases all
      exact ⟨[], rfl, rfl, .nil⟩
  | cons entry entries ih =>
      rw [List.map_cons] at all
      obtain ⟨⟨key, item⟩, others, first, rest, rfl⟩ := exists_of_mapM_cons all
      obtain ⟨spelled, rfl, keys, each⟩ := ih rest
      obtain ⟨keySpelled, itemSpelled⟩ := spelled_of_unfoldEntry first
      have same : key = entry.1.literal := eq_of_unfold_atom keySpelled
      refine ⟨(entry.1, item) :: spelled, ?_, ?_, .cons itemSpelled each⟩
      · rw [same]
        rfl
      · rw [List.map_cons, List.map_cons, keys]

/-- A dictionary whose keys are 64-bit integers and texts, no two of them for one key, is written
entry by entry. When the entries are run, every item gets what its own key becomes just when no
key is left out behind a text that stands for a larger integer. The same is true where the
dictionary stands inside others, at every level. -/
theorem keepsKeys_iff_of_dump {layout : Layout} {entries : List (GivenKey × Value)}
    {text : List Char}
    (content : graph.get h = .dict (entries.map fun entry => (.atom entry.1.atom, entry.2)))
    (distinct : (entries.map fun entry => entry.1.converted).Nodup)
    (dumped : graph.dump layout (.node h) = .ok text) :
    ∃ spelled : List (GivenKey × Literal), spelled.map Prod.fst = entries.map Prod.fst ∧
      List.Forall₂ (fun entry literal =>
        graph.unfold (Literal.maxNesting - 1) entry.2 = .ok literal.2) entries spelled ∧
      text = (Literal.dict (spelled.map Literal.keyed)).textAt layout 0 ∧
      ∀ level, (Literal.dict (spelled.map Literal.keyed)).textAt layout level =
          Literal.arrayText layout level
            ((Literal.written layout (level + 1) 0 (spelled.map Literal.keyed)).map
              WrittenEntry.text) ∧
        (Literal.KeepsKeys layout (level + 1) spelled ↔
          GivenKey.LeavesOutSafely (entries.map Prod.fst)) := by
  obtain ⟨literal, unfolds, rfl⟩ := exists_of_dump dumped
  obtain ⟨inner, literals, depth, all, rfl⟩ := exists_of_unfold_dict content unfolds
  obtain ⟨spelled, rfl, keys, each⟩ := exists_of_mapM_keyed all
  have own : (spelled.map fun entry => entry.1.converted).Nodup := by
    have same : (spelled.map Prod.fst).map GivenKey.converted =
        (entries.map Prod.fst).map GivenKey.converted := by rw [keys]
    rw [List.map_map, List.map_map] at same
    exact same ▸ distinct
  refine ⟨spelled, keys, ?_, rfl, fun level => ⟨?_, ?_⟩⟩
  · rw [depth, Nat.add_sub_cancel]
    exact each
  · rw [Literal.textAt, Literal.entryTexts_eq]
  · rw [← keys]
    exact Literal.keepsKeys_iff own layout (level + 1)

/-- A text that stands for a small integer, in front of a key that is left out. -/
def numberedEntries : List (GivenKey × Value) :=
  [(.word (.text "7"), .text "a"), (.int 12 rfl, .text "b"), (.int 13 rfl, .text "c")]

def numbered : Graph :=
  ⟨#[.dict (numberedEntries.map fun entry => (.atom entry.1.atom, entry.2))]⟩

theorem keepsKeys_numbered : GivenKey.LeavesOutSafely (numberedEntries.map Prod.fst) ∧
    ∃ spelled, "['7' => 'a', 12 => 'b', 'c']".toList =
        (Literal.dict (spelled.map Literal.keyed)).textAt .standard 0 ∧
      Literal.KeepsKeys .standard 1 spelled := by
  have safe : GivenKey.LeavesOutSafely (numberedEntries.map Prod.fst) := by decide +kernel
  have distinct : (numberedEntries.map fun entry => entry.1.converted).Nodup := by
    decide +kernel
  have dumped : numbered.dump .standard (.node ⟨0⟩) =
      .ok "['7' => 'a', 12 => 'b', 'c']".toList := by
    with_unfolding_all rfl
  obtain ⟨spelled, _, _, text, runs⟩ := keepsKeys_iff_of_dump rfl distinct dumped
  exact ⟨safe, spelled, text, (runs 0).2.2 safe⟩

/-- A text that stands for a larger integer than the key that is left out behind it. -/
def misnumbered : Graph := ⟨#[.dict [(.text "5", .text "a"), (.atom (.int 0), .text "b")]]⟩

/-- The second item gets a key that is not its own. -/
theorem misnumbered_moves_item :
    misnumbered.dump .standard (.node ⟨0⟩) = .ok "['5' => 'a', 'b']".toList ∧
      (ArrayState.empty.run [⟨some "'5'".toList, "'a'".toList⟩, ⟨none, "'b'".toList⟩]).map
          (·.items.entries) = some [(.int 5, "'a'".toList), (.int 6, "'b'".toList)] ∧
      ¬Literal.KeepsKeys .standard 1
        [(.word (.text "5"), .atom (.word (.text "a"))),
          (.int 0 rfl, .atom (.word (.text "b")))] := by
  refine ⟨?_, ?_, ?_⟩
  · with_unfolding_all rfl
  · with_unfolding_all rfl
  · rw [Literal.keepsKeys_iff (by decide +kernel)]
    decide +kernel

end Graph

end PhpDecl
