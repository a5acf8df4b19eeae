/-!
# Maps in order of insertion

A map is a list of entries with distinct keys, in the order in which the keys were first
written. Writing under a key that is there replaces the value and keeps both the place and the
key; any other key goes to the end.
-/

namespace PhpDecl

namespace Entries

variable {κ α β : Type}

/-- Write a value under a key, where `same` tells which keys are one. -/
def upsert (same : κ → κ → Bool) (key : κ) (value : α) : List (κ × α) → List (κ × α)
  | [] => [(key, value)]
  | (k, v) :: rest =>
      if same k key then (k, value) :: rest else (k, v) :: upsert same key value rest

def find? (same : κ → κ → Bool) (key : κ) : List (κ × α) → Option α
  | [] => none
  | (k, v) :: rest => if same k key then some v else find? same key rest

def ofList (same : κ → κ → Bool) (entries : List (κ × α)) : List (κ × α) :=
  entries.foldl (fun written entry => upsert same entry.1 entry.2 written) []

/-- Apply a function to every value, from the first on, and hand a state along. -/
def mapAccum {σ : Type} (f : σ → α → σ × β) : σ → List (κ × α) → σ × List (κ × β)
  | state, [] => (state, [])
  | state, (key, value) :: rest =>
      let (state, image) := f state value
      let (state, images) := mapAccum f state rest
      (state, (key, image) :: images)

theorem keys_mapAccum {σ : Type} (f : σ → α → σ × β) (state : σ) (entries : List (κ × α)) :
    (mapAccum f state entries).2.map Prod.fst = entries.map Prod.fst := by
  induction entries generalizing state with
  | nil => rfl
  | cons entry rest ih => simp [mapAccum, ih]

/-- Writing adds no key but the one written. -/
theorem mem_keys_upsert {same : κ → κ → Bool} {key k : κ} {value : α} {entries : List (κ × α)}
    (h : k ∈ (upsert same key value entries).map Prod.fst) :
    k = key ∨ k ∈ entries.map Prod.fst := by
  induction entries with
  | nil => simpa [upsert] using h
  | cons entry rest ih =>
      rw [upsert] at h
      split at h
      · exact .inr h
      · rcases List.mem_cons.1 h with rfl | h
        · exact .inr (List.mem_cons_self ..)
        · exact (ih h).imp id (List.mem_cons_of_mem _)

theorem pairwise_upsert {same : κ → κ → Bool} {key : κ} {value : α} {entries : List (κ × α)}
    (distinct : (entries.map Prod.fst).Pairwise fun a b => same a b = false) :
    ((upsert same key value entries).map Prod.fst).Pairwise fun a b => same a b = false := by
  induction entries with
  | nil => simp [upsert]
  | cons entry rest ih =>
      rw [upsert]
      split
      · exact distinct
      · next differs =>
        obtain ⟨head, tail⟩ := List.pairwise_cons.1 distinct
        refine List.pairwise_cons.2 ⟨fun k member => ?_, ih tail⟩
        rcases mem_keys_upsert member with rfl | member
        · simpa using differs
        · exact head k member

end Entries

/-- A map whose entries stand in the order in which their keys were first written. -/
structure OrderedMap (κ α : Type) [BEq κ] where
  entries : List (κ × α)
  distinct : (entries.map Prod.fst).Pairwise fun a b => (a == b) = false

namespace OrderedMap

variable {κ α β : Type} [BEq κ]

/-- The map without entries. -/
def empty : OrderedMap κ α := ⟨[], List.Pairwise.nil⟩

instance : Inhabited (OrderedMap κ α) := ⟨empty⟩

def upsert (map : OrderedMap κ α) (key : κ) (value : α) : OrderedMap κ α :=
  ⟨Entries.upsert (· == ·) key value map.entries, Entries.pairwise_upsert map.distinct⟩

def get? (map : OrderedMap κ α) (key : κ) : Option α :=
  Entries.find? (· == ·) key map.entries

/-- The keys, in order. -/
def keys (map : OrderedMap κ α) : List κ := map.entries.map Prod.fst

/-- The values, in the order of their keys. -/
def values (map : OrderedMap κ α) : List α := map.entries.map Prod.snd

def ofList (entries : List (κ × α)) : OrderedMap κ α :=
  entries.foldl (fun map entry => map.upsert entry.1 entry.2) empty

def mapValues (f : α → β) (map : OrderedMap κ α) : OrderedMap κ β :=
  ⟨map.entries.map fun entry => (entry.1, f entry.2), by
    simpa [Function.comp_def] using map.distinct⟩

/-- Apply a function to every value, from the first on, and hand a state along. -/
def mapAccum {σ : Type} (f : σ → α → σ × β) (state : σ) (map : OrderedMap κ α) :
    σ × OrderedMap κ β :=
  ((Entries.mapAccum f state map.entries).1,
    ⟨(Entries.mapAccum f state map.entries).2, by
      rw [Entries.keys_mapAccum]
      exact map.distinct⟩)

@[simp] theorem keys_mapValues (f : α → β) (map : OrderedMap κ α) :
    (map.mapValues f).keys = map.keys := by
  simp [keys, mapValues]

@[simp] theorem values_mapValues (f : α → β) (map : OrderedMap κ α) :
    (map.mapValues f).values = map.values.map f := by
  simp [values, mapValues]

/-- What was written last is found. -/
theorem get?_upsert_self [EquivBEq κ] (map : OrderedMap κ α) (key : κ) (value : α) :
    (map.upsert key value).get? key = some value := by
  obtain ⟨entries, distinct⟩ := map
  simp only [get?, upsert]
  clear distinct
  induction entries with
  | nil => simp [Entries.upsert, Entries.find?]
  | cons entry rest ih =>
      rw [Entries.upsert]
      split
      · next same => simp [Entries.find?, same]
      · next differs => simp [Entries.find?, differs, ih]

/-- Writing under one key leaves the others. -/
theorem get?_upsert_of_ne [EquivBEq κ] (map : OrderedMap κ α) {key other : κ} (value : α)
    (differs : (key == other) = false) : (map.upsert key value).get? other = map.get? other := by
  obtain ⟨entries, distinct⟩ := map
  simp only [get?, upsert]
  clear distinct
  induction entries with
  | nil => simp [Entries.upsert, Entries.find?, differs]
  | cons entry rest ih =>
      rw [Entries.upsert]
      split
      · next same =>
        have : (entry.1 == other) = false := by rw [BEq.congr_left same, differs]
        simp [Entries.find?, this]
      · simp [Entries.find?, ih]

end OrderedMap

end PhpDecl
