import Mathlib.Data.List.Induction
import PhpDecl.OrderedMap
import PhpDecl.Value

/-!
# Entries of a map that was written to

An entry of a map was there before it was written to, or it is the one that was written; so that
what is in a map that was made of a list comes from the list: each key stands where the list has it
first, and holds what the list gives for it last.
-/

namespace PhpDecl

namespace Entries

variable {κ α : Type} {same : κ → κ → Bool} {key : κ} {value : α} {entries : List (κ × α)}

/-- Writing keeps the keys that are there, in their order. -/
theorem keys_prefix_upsert :
    entries.map Prod.fst <+: (upsert same key value entries).map Prod.fst := by
  induction entries with
  | nil => exact List.nil_prefix
  | cons entry rest ih =>
      rw [upsert]
      split
      · exact List.prefix_rfl
      · exact List.cons_prefix_cons.2 ⟨rfl, ih⟩

/-- Writing leaves every entry in its place, and replaces the value of the one that is found. -/
theorem getElem?_upsert {k : κ} {v : α} {i : Nat} (here : entries[i]? = some (k, v)) :
    (upsert same key value entries)[i]? = some (k, v) ∨
      find? same key entries = some v ∧
        (upsert same key value entries)[i]? = some (k, value) := by
  induction entries generalizing i with
  | nil => cases here
  | cons entry rest ih =>
      rw [upsert, find?]
      cases i with
      | zero =>
          cases here
          split
          · exact .inr ⟨rfl, rfl⟩
          · exact .inl rfl
      | succ i =>
          split
          · exact .inl here
          · exact ih here

theorem upsert_of_absent (absent : ∀ k ∈ entries.map Prod.fst, same k key = false) :
    upsert same key value entries = entries ++ [(key, value)] := by
  induction entries with
  | nil => rfl
  | cons entry rest ih =>
      rw [List.map_cons] at absent
      rw [upsert, if_neg (Bool.eq_false_iff.1 (absent _ (.head _))),
        ih fun k member => absent k (.tail _ member)]
      rfl

theorem mem_of_find? (found : find? same key entries = some value) :
    ∃ entry ∈ entries, entry.2 = value ∧ same entry.1 key = true := by
  induction entries with
  | nil => cases found
  | cons first rest ih =>
      rw [find?] at found
      split at found
      next here =>
        cases found
        exact ⟨first, .head _, rfl, here⟩
      next =>
        obtain ⟨entry, member, same⟩ := ih found
        exact ⟨entry, .tail _ member, same⟩

/-- An entry of a map that was written to was there, or holds what was written. -/
theorem of_mem_upsert {entry : κ × α} (member : entry ∈ upsert same key value entries) :
    entry ∈ entries ∨ entry.2 = value ∧ (entry.1 = key ∨ same entry.1 key = true) := by
  induction entries with
  | nil =>
      obtain rfl := List.mem_singleton.1 member
      exact .inr ⟨rfl, .inl rfl⟩
  | cons first rest ih =>
      rw [upsert] at member
      split at member
      next here =>
        obtain rfl | member := List.mem_cons.1 member
        · exact .inr ⟨rfl, .inr here⟩
        · exact .inl (.tail _ member)
      next =>
        obtain rfl | member := List.mem_cons.1 member
        · exact .inl (.head _)
        · exact (ih member).imp_left (.tail _)

/-- What holds of the empty map and is kept when an entry of the list is written holds of the map
that is made of the list. -/
theorem ofList_induct (p : List (κ × α) → Prop) (empty : p [])
    (step : ∀ entry ∈ entries, ∀ map, p map → p (upsert same entry.1 entry.2 map)) :
    p (ofList same entries) := by
  have folded (start : List (κ × α)) (base : p start) :
      p (entries.foldl (fun map entry => upsert same entry.1 entry.2 map) start) := by
    induction entries generalizing start with
    | nil => exact base
    | cons first rest ih =>
        exact ih (fun entry member => step entry (.tail _ member)) _ (step first (.head _) _ base)
  exact folded [] empty

/-- An entry of a map that is made of a list holds a value of the list, under the same key. -/
theorem of_mem_ofList : ∀ entry ∈ ofList same entries,
    ∃ written ∈ entries, entry.2 = written.2 ∧
      (entry.1 = written.1 ∨ same entry.1 written.1 = true) :=
  ofList_induct (fun map => ∀ entry ∈ map, ∃ written ∈ entries, entry.2 = written.2 ∧
      (entry.1 = written.1 ∨ same entry.1 written.1 = true))
    (fun _ none => by cases none) fun written inside _ all entry member =>
      (of_mem_upsert member).elim (all entry) fun held => ⟨written, inside, held⟩

theorem mem_keys_ofList :
    ∀ key ∈ (ofList same entries).map Prod.fst, key ∈ entries.map Prod.fst :=
  ofList_induct (fun map => ∀ key ∈ map.map Prod.fst, key ∈ entries.map Prod.fst)
    (fun _ none => by cases none) fun entry inside _ all key member =>
      (mem_keys_upsert member).elim (fun same => same ▸ List.mem_map_of_mem inside) (all key)

/-! ## The values that entries hold -/

theorem forall_parts_map {p : Value → Prop} (key : κ → Value) (wrap : α → Value)
    {entries : List (κ × α)} (keys : ∀ k, p (key k))
    (values : ∀ entry ∈ entries, p (wrap entry.2)) :
    ∀ value ∈ parts (entries.map fun entry => (key entry.1, wrap entry.2)), p value := by
  intro value member
  obtain ⟨_, inside, member⟩ := List.mem_flatMap.1 member
  obtain ⟨entry, kept, rfl⟩ := List.mem_map.1 inside
  obtain rfl | member := List.mem_cons.1 member
  · exact keys _
  · obtain rfl := List.mem_singleton.1 member
    exact values entry kept

section

variable {entries : List (Value × Value)} {entry : Value × Value}

theorem fst_mem_parts (member : entry ∈ entries) : entry.1 ∈ parts entries :=
  List.mem_flatMap.2 ⟨entry, member, .head _⟩

theorem snd_mem_parts (member : entry ∈ entries) : entry.2 ∈ parts entries :=
  List.mem_flatMap.2 ⟨entry, member, .tail _ (.head _)⟩

theorem mem_parts_cons {part : Value} :
    part ∈ parts (entry :: entries) ↔ part ∈ [entry.1, entry.2] ∨ part ∈ parts entries := by
  rw [parts, List.flatMap_cons, List.mem_append]
  rfl

variable {same : Value → Value → Bool}

/-- Writing to a map brings in nothing but the key and the value. -/
theorem parts_upsert_subset {key value : Value} :
    parts (upsert same key value entries) ⊆ [key, value] ++ parts entries := by
  intro part member
  rw [List.mem_append]
  induction entries with
  | nil => exact .inl member
  | cons first rest ih =>
      rw [upsert] at member
      split at member
      · obtain here | there := mem_parts_cons.1 member
        · obtain rfl | here := List.mem_cons.1 here
          · exact .inr (.head _)
          · exact .inl (.tail _ here)
        · exact .inr (mem_parts_cons.2 (.inr there))
      · obtain here | there := mem_parts_cons.1 member
        · exact .inr (mem_parts_cons.2 (.inl here))
        · exact (ih there).imp_right fun old => mem_parts_cons.2 (.inr old)

theorem parts_ofList_subset (entries : List (Value × Value)) :
    parts (ofList same entries) ⊆ parts entries :=
  ofList_induct (parts · ⊆ parts entries) (List.nil_subset _) fun entry inside _ all _ member =>
    (List.mem_append.1 (parts_upsert_subset member)).elim
      (fun new => List.mem_flatMap.2 ⟨entry, inside, new⟩) fun old => all old

end

/-! ## The latest of several writes -/

theorem find?_append (others : List (κ × α)) : find? same key (entries ++ others) =
    (find? same key entries).or (find? same key others) := by
  induction entries with
  | nil => rfl
  | cons first rest ih =>
      rw [List.cons_append, find?, find?, ih]
      split <;> rfl

theorem ofList_concat {κ α : Type} (same : κ → κ → Bool) (entries : List (κ × α)) (entry : κ × α) :
    ofList same (entries ++ [entry]) = upsert same entry.1 entry.2 (ofList same entries) := by
  rw [ofList, List.foldl_append]
  rfl

section

variable {κ α β : Type} [BEq κ] [LawfulBEq κ] {key k : κ} {value : α}
  {entries others : List (κ × α)}

/-- Writing keeps the keys that are there, and puts a new one behind them. -/
theorem keys_upsert : (upsert (· == ·) key value entries).map Prod.fst =
    entries.map Prod.fst ++ if key ∈ entries.map Prod.fst then [] else [key] := by
  induction entries with
  | nil => rfl
  | cons first rest ih =>
      rw [upsert]
      by_cases here : first.1 = key
      · simp [here]
      · have other : key ∈ first.1 :: rest.map Prod.fst ↔ key ∈ rest.map Prod.fst := by
          rw [List.mem_cons, or_iff_right (Ne.symm here)]
        rw [if_neg (by simpa using here), List.map_cons, ih, List.map_cons, List.cons_append]
        simp only [other]

theorem find?_upsert : find? (· == ·) k (upsert (· == ·) key value entries) =
    if key == k then some value else find? (· == ·) k entries := by
  induction entries with
  | nil => rfl
  | cons first rest ih =>
      rw [upsert]
      by_cases here : first.1 = key
      · subst here
        simp only [beq_self_eq_true, if_true, find?]
        split <;> rfl
      · rw [if_neg (by simpa using here), find?, find?, ih]
        by_cases first_ : first.1 = k
        · have apart : (key == k) = false := by simpa [← first_] using Ne.symm here
          simp [first_, apart]
        · simp [first_]

theorem find?_map (g : κ → α → β) :
    find? (· == ·) k (entries.map fun entry => (entry.1, g entry.1 entry.2)) =
      (find? (· == ·) k entries).map (g k) := by
  induction entries with
  | nil => rfl
  | cons first rest ih =>
      rw [List.map_cons, find?, find?, ih]
      by_cases here : first.1 = k
      · simp [here]
      · simp [here]

/-- In a map that is made of a list, a key has the value that the list gives for it last. -/
theorem find?_ofList : find? (· == ·) k (ofList (· == ·) entries) =
    find? (· == ·) k entries.reverse := by
  induction entries using List.reverseRecOn with
  | nil => rfl
  | append_singleton entries entry ih =>
      rw [ofList_concat, find?_upsert, ih, List.reverse_append]
      rfl

/-- The keys of a map that is made of a list are those of the list, each where it first stands. -/
theorem keys_ofList : (ofList (· == ·) entries).map Prod.fst =
    (entries.map Prod.fst).eraseDups := by
  induction entries using List.reverseRecOn with
  | nil => rfl
  | append_singleton entries entry ih =>
      rw [ofList_concat, keys_upsert, ih, List.map_append, List.eraseDups_append]
      by_cases here : entry.1 ∈ entries.map Prod.fst
      · simp [List.removeAll, here]
      · simp [List.removeAll, here, List.eraseDups_cons]

theorem find?_eq_none_iff : find? (· == ·) k entries = none ↔ k ∉ entries.map Prod.fst := by
  induction entries with
  | nil => simp [find?]
  | cons first rest ih =>
      rw [find?]
      by_cases here : first.1 = k
      · simp [here]
      · simp [here, Ne.symm here, ih]

theorem find?_eq_some_iff (distinct : (entries.map Prod.fst).Nodup) :
    find? (· == ·) k entries = some value ↔ (k, value) ∈ entries := by
  induction entries with
  | nil => simp [find?]
  | cons first rest ih =>
      rw [List.map_cons, List.nodup_cons] at distinct
      rw [find?]
      by_cases here : first.1 = k
      · subst here
        have absent : (first.1, value) ∉ rest := fun member =>
          distinct.1 (List.mem_map.2 ⟨_, member, rfl⟩)
        simp [absent, Prod.ext_iff, eq_comm]
      · simp [here, ih distinct.2, Prod.ext_iff, Ne.symm here]

/-- Entries with the same distinct keys in the same order, and the same values for them, are the
same. -/
theorem ext_of_find? (keys : entries.map Prod.fst = others.map Prod.fst)
    (distinct : (entries.map Prod.fst).Nodup)
    (same : ∀ k, find? (· == ·) k entries = find? (· == ·) k others) : entries = others := by
  induction entries generalizing others with
  | nil =>
      rw [List.map_nil, eq_comm, List.map_eq_nil_iff] at keys
      rw [keys]
  | cons first rest ih =>
      cases others with
      | nil => cases keys
      | cons second others =>
          rw [List.map_cons, List.map_cons, List.cons.injEq] at keys
          obtain ⟨firstKey, keys⟩ := keys
          rw [List.map_cons, List.nodup_cons] at distinct
          obtain ⟨absent, distinct⟩ := distinct
          obtain ⟨k, v⟩ := first
          obtain ⟨_, w⟩ := second
          cases firstKey
          have values := same k
          simp only [find?, beq_self_eq_true, if_true, Option.some.injEq] at values
          rw [values, ih keys distinct fun j => ?_]
          by_cases here : k = j
          · subst here
            rw [find?_eq_none_iff.2 absent, find?_eq_none_iff.2 (keys ▸ absent)]
          · have others := same j
            simpa [find?, here] using others

/-- Entries with distinct keys are the map that is made of them. -/
theorem ofList_of_nodup (distinct : (entries.map Prod.fst).Nodup) :
    ofList (· == ·) entries = entries := by
  induction entries using List.reverseRecOn with
  | nil => rfl
  | append_singleton entries entry ih =>
      rw [List.map_append, List.nodup_append] at distinct
      rw [ofList_concat, ih distinct.1, upsert_of_absent]
      intro k member
      simpa using distinct.2.2 k member

end

/-- The image of a map that was written to, where keys are one just when their images are. -/
theorem map_upsert {κ κ' α β : Type} {same : κ → κ → Bool} {same' : κ' → κ' → Bool} {f : κ → κ'}
    (alike : ∀ a b, same a b = same' (f a) (f b)) (g : α → β) (key : κ) (value : α)
    (entries : List (κ × α)) :
    (upsert same key value entries).map (fun entry => (f entry.1, g entry.2)) =
      upsert same' (f key) (g value) (entries.map fun entry => (f entry.1, g entry.2)) := by
  induction entries with
  | nil => rfl
  | cons first rest ih =>
      rw [upsert, List.map_cons, upsert, alike]
      split
      · rfl
      · rw [List.map_cons, ih]

theorem find?_image {κ κ' α β : Type} {same : κ → κ → Bool} {same' : κ' → κ' → Bool} {f : κ → κ'}
    (alike : ∀ a b, same a b = same' (f a) (f b)) (g : α → β) (key : κ) (entries : List (κ × α)) :
    find? same' (f key) (entries.map fun entry => (f entry.1, g entry.2)) =
      (find? same key entries).map g := by
  induction entries with
  | nil => rfl
  | cons first rest ih =>
      rw [List.map_cons, find?, find?, ← alike, ih]
      split <;> rfl

theorem map_ofList {κ κ' α β : Type} {same : κ → κ → Bool} {same' : κ' → κ' → Bool} {f : κ → κ'}
    (alike : ∀ a b, same a b = same' (f a) (f b)) (g : α → β) (entries : List (κ × α)) :
    (ofList same entries).map (fun entry => (f entry.1, g entry.2)) =
      ofList same' (entries.map fun entry => (f entry.1, g entry.2)) := by
  induction entries using List.reverseRecOn with
  | nil => rfl
  | append_singleton entries entry ih =>
      rw [List.map_append, List.map_singleton, ofList_concat, ofList_concat, map_upsert alike, ih]

end Entries

/-- What is in a map is found under every key that is the same. -/
theorem OrderedMap.get?_of_mem {κ α : Type} [BEq κ] [EquivBEq κ] {map : OrderedMap κ α}
    {key k : κ} {value : α} (member : (k, value) ∈ map.entries) (alike : (k == key) = true) :
    map.get? key = some value := by
  obtain ⟨entries, distinct⟩ := map
  rw [get?]
  induction entries with
  | nil => cases member
  | cons entry rest ih =>
      obtain ⟨head, tail⟩ := List.pairwise_cons.1 distinct
      rw [Entries.find?]
      split
      next first =>
        rcases List.mem_cons.1 member with rfl | later
        · rfl
        · have differs := head k (List.mem_map_of_mem later)
          rw [BEq.trans first (BEq.symm alike)] at differs
          cases differs
      next other =>
        rcases List.mem_cons.1 member with rfl | later
        · exact absurd alike other
        · exact ih tail later

theorem OrderedMap.entries_ofList {κ α : Type} [BEq κ] (entries : List (κ × α)) :
    (OrderedMap.ofList entries).entries = Entries.ofList (· == ·) entries := by
  have folded (map : OrderedMap κ α) :
      (entries.foldl (fun map entry => map.upsert entry.1 entry.2) map).entries =
        entries.foldl (fun map entry => Entries.upsert (· == ·) entry.1 entry.2 map)
          map.entries := by
    induction entries generalizing map with
    | nil => rfl
    | cons first rest ih => exact ih _
  exact folded .empty

end PhpDecl
