import Mathlib.Data.Finset.Card
import Mathlib.Logic.Relation
import PhpDecl.Proofs.Tidiness

/-!
# What values lead to

Whether values lead to a namespace is found out by adding what they keep, and what that keeps, in
rounds. A round that adds anything goes through an object that no round before it went through, so
there are no more such rounds than there are objects, and the last one leaves nothing to add.
-/

namespace PhpDecl

theorem nodup_eraseDups {α : Type} [DecidableEq α] : ∀ values : List α, values.eraseDups.Nodup
  | [] => List.nodup_nil
  | first :: rest => by
      rw [List.eraseDups_cons, List.nodup_cons]
      exact ⟨by simp [List.mem_eraseDups], nodup_eraseDups _⟩
termination_by values => values.length
decreasing_by exact Nat.lt_succ_of_le (List.length_filter_le ..)

namespace Store

variable {store : Store} {watched : Watch} {holder value : Value}

/-- What an object keeps, and what that keeps, through any number of objects. -/
def Leads (store : Store) : Value → Value → Prop :=
  Relation.ReflTransGen fun holder value => value ∈ store.kept holder

/-! ## What is kept -/

theorem mem_notesOf : value ∈ store.notesOf holder ↔
    ∃ note ∈ store.notes, note.1.1 = holder ∧ note.2 = value := by
  simp [notesOf, and_assoc]

/-- What may lead on of what stands in a container is kept by it. -/
theorem mem_kept_node {h : Handle .node} : value ∈ store.kept (.node h) ↔
    value ∈ (store.nodes.get h).parts ∧ value.leadsOn = true := List.mem_filter

theorem mem_kept_map {h : Handle .map} : value ∈ store.kept (.map h) ↔
    value ∈ Entries.parts (store.maps.get h).items ∧ value.leadsOn = true := List.mem_filter

theorem mem_kept_classType {h : Handle .classType} : value ∈ store.kept (.classType h) ↔
    value ∈ (store.classes.get h).declaration.parts ∧ value.leadsOn = true := by
  have members {role : Role} (wrap : Handle role → Value) (members : List (Handle role))
      (leads : ∀ h, (wrap h).leadsOn = true) :
      (members.map wrap).filter Value.leadsOn = members.map wrap :=
    List.filter_eq_self.2 (List.forall_mem_map.2 fun h _ => leads h)
  rw [kept, ← List.mem_filter, SharedDeclaration.parts, List.filter_append, List.filter_append,
    List.filter_append, members _ _ fun _ => rfl, members _ _ fun _ => rfl,
    members _ _ fun _ => rfl]
  rfl

theorem mem_kept_method {h : Handle .method} : value ∈ store.kept (.method h) ↔
    (∃ parameter ∈ (store.methods.get h).parameters.values, .parameter parameter = value) ∨
      value ∈ store.notesOf (.method h) := by
  rw [kept, List.mem_append, List.mem_map]

theorem mem_kept_of_noted (member : holder.memberType? ≠ none)
    (noted : value ∈ store.notesOf holder) : value ∈ store.kept holder := by
  cases holder with
  | method h => exact mem_kept_method.2 (.inr noted)
  | constant h | property h | parameter h => exact noted
  | _ => exact absurd rfl member

/-- What an object keeps is what it may keep. -/
theorem Sound.mayKeep_of_kept (sound : store.Sound watched) (member : value ∈ store.kept holder) :
    store.MayKeep watched holder value := by
  have noted (member : value ∈ store.notesOf holder) : store.MayKeep watched holder value := by
    obtain ⟨note, inside, rfl, rfl⟩ := mem_notesOf.1 member
    exact (sound.notes note inside).mayKeep
  cases holder with
  | node h => exact sound.nodes h value (mem_kept_node.1 member).1
  | map h => exact sound.maps h value (mem_kept_map.1 member).1
  | classType h => exact sound.classes h value (mem_kept_classType.1 member).1
  | method h =>
      obtain ⟨parameter, inside, rfl⟩ | member := mem_kept_method.1 member
      · exact sound.methods h parameter inside
      · exact noted member
  | constant h | property h | parameter h => exact noted member
  | _ => cases member

/-- What keeps anything was made. -/
theorem Sound.made_of_keeps (sound : store.Sound watched) (member : value ∈ store.kept holder) :
    store.Made holder := by
  have noted (member : value ∈ store.notesOf holder) : store.Made holder := by
    obtain ⟨note, inside, rfl, -⟩ := mem_notesOf.1 member
    exact (sound.notes note inside).made
  cases holder with
  | node h =>
      refine Arena.has_of_get_ne fun same => ?_
      rw [mem_kept_node, same] at member
      cases member.1
  | map h =>
      refine Arena.has_of_get_ne fun same => ?_
      rw [mem_kept_map, same] at member
      cases member.1
  | classType h =>
      refine Arena.has_of_get_ne fun same => ?_
      rw [mem_kept_classType, same] at member
      have bare : value ∈ [Value.bool false, Value.bool false, Value.null] := member.1
      simp only [List.mem_cons, List.not_mem_nil, or_false] at bare
      obtain rfl | rfl | rfl := bare <;> cases member.2
  | method h =>
      obtain ⟨parameter, inside, -⟩ | member := mem_kept_method.1 member
      · refine Arena.has_of_get_ne fun same => ?_
        rw [same] at inside
        cases inside
      · exact noted member
  | constant h | property h | parameter h => exact noted member
  | _ => cases member

/-- What keeps anything leads on. -/
theorem leadsOn_of_keeps (member : value ∈ store.kept holder) : holder.leadsOn = true := by
  cases holder with
  | atom _ | bytes _ | token _ | supertypes _ | shortener _ => cases member
  | _ => rfl

/-! ## The search -/

theorem length_objects (store : Store) : store.objects.length = store.keepers := by
  simp only [objects, keepers, List.length_append, List.length_map, List.length_range]

theorem Sound.mem_objects (sound : store.Sound watched) (member : value ∈ store.kept holder) :
    holder ∈ store.objects := by
  have made := sound.made_of_keeps member
  have listed {role : Role} {size : Nat} (wrap : Handle role → Value) {h : Handle role}
      (bound : h.index < size) : wrap h ∈ (List.range size).map fun i => wrap ⟨i⟩ :=
    List.mem_map.2 ⟨h.index, List.mem_range.2 bound, rfl⟩
  simp only [objects, List.mem_append]
  cases holder with
  | node h => simp [listed Value.node made]
  | map h => simp [listed Value.map made]
  | classType h => simp [listed Value.classType made]
  | constant h => simp [listed Value.constant made]
  | property h => simp [listed Value.property made]
  | parameter h => simp [listed Value.parameter made]
  | method h => simp [listed Value.method made]
  | _ => cases member

/-- There is nothing to add to the values. -/
def Closed (store : Store) (values : List Value) : Prop :=
  ∀ holder ∈ values, store.kept holder ⊆ values

theorem Closed.mem_of_leads {values : List Value} (closed : store.Closed values)
    (leads : store.Leads holder value) (member : holder ∈ values) : value ∈ values := by
  induction leads with
  | refl => exact member
  | tail _ kept inside => exact closed _ inside kept

theorem subset_keptWithin (store : Store) (depth : Nat) (values : List Value) :
    values ⊆ store.keptWithin depth values := by
  induction depth generalizing values with
  | zero => exact List.Subset.refl _
  | succ depth ih =>
      rw [keptWithin]
      split
      · exact List.Subset.refl _
      · refine List.Subset.trans (fun value member => ?_) (ih _)
        exact List.mem_eraseDups.2 (List.mem_append_left _ member)

/-- What is found is led to. -/
theorem exists_leads_of_mem_keptWithin {depth : Nat} {values : List Value}
    (member : value ∈ store.keptWithin depth values) :
    ∃ holder ∈ values, store.Leads holder value := by
  induction depth generalizing values with
  | zero => exact ⟨value, member, .refl⟩
  | succ depth ih =>
      rw [keptWithin] at member
      split at member
      · exact ⟨value, member, .refl⟩
      · obtain ⟨between, inside, leads⟩ := ih member
        obtain old | new := List.mem_append.1 (List.mem_eraseDups.1 inside)
        · exact ⟨between, old, leads⟩
        · obtain ⟨holder, held, kept⟩ := List.mem_flatMap.1 new
          exact ⟨holder, held, .head kept leads⟩

/-- The search ends with nothing to add when it may still take a round for each object that it has
not been through, and one more. -/
theorem Sound.closed_keptWithin (sound : store.Sound watched) {depth : Nat}
    {explored values : List Value} (distinct : values.Nodup) (known : explored ⊆ values)
    (done : ∀ holder ∈ explored, store.kept holder ⊆ values)
    (room : (store.objects.toFinset \ explored.toFinset).card < depth) :
    store.Closed (store.keptWithin depth values) := by
  induction depth generalizing explored values with
  | zero => exact absurd room (Nat.not_lt_zero _)
  | succ depth ih =>
      have grown {value : Value} : value ∈ (values ++ values.flatMap store.kept).eraseDups ↔
          value ∈ values ∨ ∃ holder ∈ values, value ∈ store.kept holder := by
        rw [List.mem_eraseDups, List.mem_append, List.mem_flatMap]
      have more : values ⊆ (values ++ values.flatMap store.kept).eraseDups :=
        fun _ member => grown.2 (.inl member)
      rw [keptWithin]
      split
      next full =>
        intro holder member value kept
        have same := (List.subperm_of_subset distinct more).perm_of_length_le full
        exact same.symm.subset (grown.2 (.inr ⟨holder, member, kept⟩))
      next longer =>
        -- The round added something, and so went through an object that is not explored.
        obtain ⟨holder, held, value, kept, fresh⟩ :
            ∃ holder ∈ values, ∃ value ∈ store.kept holder, value ∉ values := by
          by_contra none
          refine longer ((nodup_eraseDups _).length_le_of_subset fun value member => ?_)
          obtain old | ⟨holder, held, kept⟩ := grown.1 member
          · exact old
          · by_contra fresh
            exact none ⟨holder, held, value, kept, fresh⟩
        have unexplored : holder ∈ store.objects.toFinset \ explored.toFinset := by
          simp only [Finset.mem_sdiff, List.mem_toFinset]
          exact ⟨sound.mem_objects kept, fun old => fresh (done holder old kept)⟩
        have fewer : store.objects.toFinset \ values.toFinset ⊂
            store.objects.toFinset \ explored.toFinset := by
          refine (Finset.ssubset_iff_of_subset ?_).2 ⟨holder, unexplored, by simp [held]⟩
          exact Finset.sdiff_subset_sdiff (Finset.Subset.refl _) fun value member =>
            List.mem_toFinset.2 (known (List.mem_toFinset.1 member))
        exact ih (nodup_eraseDups _) more
          (fun holder held value kept => grown.2 (.inr ⟨holder, held, kept⟩))
          (Nat.lt_of_lt_of_le (Finset.card_lt_card fewer) (Nat.le_of_lt_succ room))

/-- The search finds what values lead to. -/
theorem Sound.mem_keptBy (sound : store.Sound watched) {values : List Value} :
    value ∈ store.keptBy values ↔ ∃ holder ∈ values, store.Leads holder value := by
  constructor
  · intro member
    obtain ⟨holder, held, leads⟩ := exists_leads_of_mem_keptWithin member
    exact ⟨holder, List.mem_eraseDups.1 held, leads⟩
  · rintro ⟨holder, held, leads⟩
    have room : (store.objects.toFinset \ ([] : List Value).toFinset).card < store.keepers + 1 := by
      have bound := List.toFinset_card_le store.objects
      rw [store.length_objects] at bound
      exact Nat.lt_succ_of_le (Nat.le_trans (Finset.card_le_card Finset.sdiff_subset) bound)
    have closed : store.Closed (store.keptBy values) :=
      sound.closed_keptWithin (nodup_eraseDups _) (List.nil_subset _) (fun _ none => by cases none)
        room
    exact closed.mem_of_leads leads (subset_keptWithin _ _ _ (List.mem_eraseDups.2 held))

/-- The search finds out whether values lead to a namespace. -/
theorem Sound.leadTo_iff (sound : store.Sound watched) {values : List Value}
    {scope : Handle .scope} :
    store.leadTo values scope = true ↔ ∃ value ∈ values, store.Leads value (.scope scope) := by
  rw [leadTo, Bool.or_eq_true, List.contains_iff_mem, List.contains_iff_mem, sound.mem_keptBy]
  exact or_iff_right_of_imp fun member => ⟨_, member, .refl⟩

/-! ## Circles -/

/-- The object leads to itself through what it keeps. -/
def Circular (store : Store) (object : Value) : Prop :=
  ∃ value ∈ store.kept object, store.Leads value object

theorem Sound.mem_circles (sound : store.Sound watched) {left : Value → Bool} {object : Value} :
    object ∈ store.circles left ↔ left object = true ∧ store.Circular object := by
  rw [circles, List.mem_filter, Bool.and_eq_true, List.contains_iff_mem, sound.mem_keptBy]
  exact and_iff_right_of_imp fun ⟨_, _, kept, _⟩ => sound.mem_objects kept

/-- What is left of the objects in circles leads to the namespace. -/
def Encircled (store : Store) (left : Value → Bool) (scope : Handle .scope) : Prop :=
  ∃ object, left object = true ∧ store.Circular object ∧ store.Leads object (.scope scope)

theorem Encircled.mono {left more : Value → Bool} {scope : Handle .scope}
    (encircled : store.Encircled left scope)
    (grows : ∀ object, left object = true → more object = true) : store.Encircled more scope :=
  let ⟨object, stays, circular, leads⟩ := encircled
  ⟨object, grows object stays, circular, leads⟩

theorem Sound.exists_leads_iff (sound : store.Sound watched) {values : List Value}
    {left : Value → Bool} {scope : Handle .scope} :
    (∃ value ∈ values ++ store.circles left, store.Leads value (.scope scope)) ↔
      (∃ value ∈ values, store.Leads value (.scope scope)) ∨ store.Encircled left scope := by
  simp only [List.mem_append, sound.mem_circles, or_and_right, exists_or, and_assoc, Encircled]

end Store

end PhpDecl
