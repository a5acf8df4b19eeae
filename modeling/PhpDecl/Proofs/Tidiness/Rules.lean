import PhpDecl.Proofs.Tidiness

/-!
# Operations on tidy stores

An operation is careful with the values that it is given when it leaves a tidy store, in which
nothing is missing that was made, and a result that is there. The rules of this module follow the
ways in which operations are put together; what only reads the store is left to the rules for
what operations keep.
-/

namespace PhpDecl.Op

open Store

variable {α β : Type} {watched : Watch} {store : Store} {known : List Value}

/-- From the store the operation leaves a tidy one in which everything is there that was made in the
first one. With a result the store is besides as told. -/
def Ends (watched : Watch) (store : Store) (op : Op α) (told : α → Store → Prop) :
    Prop :=
  match op.run store with
  | .ok a after => after.Tidy watched ∧ store.Within after ∧ told a after
  | .error _ after => after.Tidy watched ∧ store.Within after

/-- The operation leaves a tidy store, and the parts of a result are there. -/
abbrev Gives (watched : Watch) (store : Store) (op : Op α) (parts : α → List Value) :
    Prop :=
  Ends watched store op fun a after => ∀ value ∈ parts a, after.Has watched value

/-- The operation may run in every tidy store in which the values are there that it is given. -/
def Careful (watched : Watch) (known : List Value) (op : Op α)
    (parts : α → List Value) : Prop :=
  ∀ store, store.Tidy watched → (∀ value ∈ known, store.Has watched value) →
    Gives watched store op parts

namespace Ends

variable {op : Op α} {next : α → Op β} {told : α → Store → Prop} {later : β → Store → Prop}

theorem throw (tidy : store.Tidy watched) (fault : Fault) :
    Ends watched store (throw fault : Op α) told := ⟨tidy, .refl store⟩

theorem refuse (tidy : store.Tidy watched) (fault : Fault) :
    Ends watched store (refuse fault : Op α) told := ⟨tidy, .refl store⟩

theorem bind (first : Ends watched store op told)
    (second : ∀ a after, after.Tidy watched → store.Within after → told a after →
      Ends watched after (next a) later) : Ends watched store (op >>= next) later := by
  unfold Ends at first ⊢
  cases run : op.run store with
  | ok a between =>
      simp only [run] at first
      have rest := second a between first.1 first.2.1 first.2.2
      rw [run_bind_ok run]
      unfold Ends at rest
      split at rest
      · exact ⟨rest.1, first.2.1.trans rest.2.1, rest.2.2⟩
      · exact ⟨rest.1, first.2.1.trans rest.2⟩
  | error fault between =>
      simp only [run] at first
      rw [run_bind_error run]
      exact first

theorem get {next : Store → Op β} (rest : Ends watched store (next store) later) :
    Ends watched store (MonadState.get >>= next) later := rest

/-- What leaves the store as it is. -/
theorem read (tidy : store.Tidy watched) (kept : Keeps (· = store) op)
    (second : ∀ a, Ends watched store (next a) later) :
    Ends watched store (op >>= next) later := by
  have same := kept store rfl
  cases run : op.run store with
  | ok a between =>
      rw [run] at same
      obtain rfl : between = store := same
      have rest := second a
      unfold Ends at rest ⊢
      rwa [run_bind_ok run]
  | error fault between =>
      rw [run] at same
      obtain rfl : between = store := same
      unfold Ends
      rw [run_bind_error run]
      exact ⟨tidy, .refl _⟩

/-- A new state of the store, in front of what is done with it. -/
theorem set {after : Store} {next : PUnit → Op β} (within : store.Within after)
    (rest : Ends watched after (next ⟨⟩) later) :
    Ends watched store (MonadStateOf.set after >>= next) later := by
  have run : (MonadStateOf.set after >>= next : Op β).run store = (next ⟨⟩).run after := rfl
  unfold Ends at rest ⊢
  rw [run]
  split at rest
  · exact ⟨rest.1, within.trans rest.2.1, rest.2.2⟩
  · exact ⟨rest.1, within.trans rest.2⟩

/-- A new state of the store that is tidy. -/
theorem write {after : Store} {next : PUnit → Op β} (left : after.Tidy watched ∧ store.Within after)
    (rest : after.Tidy watched → store.Within after → Ends watched after (next ⟨⟩) later) :
    Ends watched store (MonadStateOf.set after >>= next) later :=
  .set left.2 (rest left.1 left.2)

/-- What is read from given fields. -/
theorem ofFields (tidy : store.Tidy watched) {result : Except (List FieldError) α}
    (rest : ∀ a, result = .ok a → Ends watched store (next a) later) :
    Ends watched store (ofFields result >>= next) later := by
  cases result with
  | ok a => exact rest a rfl
  | error errors => exact ⟨tidy, .refl store⟩

theorem ofExcept (tidy : store.Tidy watched) {result : Except Fault α}
    (rest : ∀ a, result = .ok a → Ends watched store (next a) later) :
    Ends watched store (ofExcept result >>= next) later := by
  cases result with
  | ok a => exact rest a rfl
  | error fault => exact ⟨tidy, .refl store⟩

theorem mono (ends : Ends watched store op told) {less : α → Store → Prop}
    (weaker : ∀ a after, told a after → less a after) : Ends watched store op less := by
  unfold Ends at ends ⊢
  split at ends
  · exact ⟨ends.1, ends.2.1, weaker _ _ ends.2.2⟩
  · exact ends

variable {parts : α → List Value}

theorem pure (tidy : store.Tidy watched) {a : α}
    (exist : ∀ value ∈ parts a, store.Has watched value) :
    Gives watched store (pure a) parts := ⟨tidy, .refl store, exist⟩

/-- A single value. -/
theorem value (tidy : store.Tidy watched) {value : Value} (has : store.Has watched value) :
    Gives watched store (Pure.pure value) ([·]) :=
  pure tidy fun other only => by
    obtain rfl := List.mem_singleton.1 only
    exact has

/-- A value that leads to nothing. -/
theorem bare (tidy : store.Tidy watched) {value : Value} (unheld : value.leadsOn = false) :
    Gives watched store (Pure.pure value) ([·]) := .value tidy (has_of_bare unheld)

theorem some (tidy : store.Tidy watched) {value : Value} (has : store.Has watched value) :
    Gives watched store (Pure.pure (Option.some value)) Option.toList :=
  pure tidy fun other only => by
    obtain rfl := List.mem_singleton.1 only
    exact has

theorem none (tidy : store.Tidy watched) :
    Gives watched store (Pure.pure (Option.none : Option Value)) Option.toList :=
  pure tidy fun _ none => by cases none

/-- A new state of the store, with nothing done behind it. -/
theorem put {after : Store} (left : after.Tidy watched ∧ store.Within after) :
    Gives watched store (MonadStateOf.set after) fun _ => [] :=
  ⟨left.1, left.2, fun _ none => by cases none⟩

end Ends

namespace Careful

variable {op : Op α} {next : α → Op β} {parts : α → List Value} {others : β → List Value}

theorem of_subset {fewer : List Value} (careful : Careful watched fewer op parts)
    (less : fewer ⊆ known) : Careful watched known op parts :=
  fun store tidy exist => careful store tidy fun value member => exist value (less member)

theorem pure {a : α} (less : parts a ⊆ known) : Careful watched known (pure a) parts :=
  fun _ tidy exist => .pure tidy fun value member => exist value (less member)

/-- A value that leads to nothing. -/
theorem bare {value : Value} (unheld : value.leadsOn = false) :
    Careful watched known (Pure.pure value) ([·]) := fun _ tidy _ => .bare tidy unheld

/-- A value that is given. -/
theorem given {value : Value} (member : value ∈ known) :
    Careful watched known (Pure.pure value) ([·]) :=
  pure (List.cons_subset.2 ⟨member, List.nil_subset _⟩)

theorem throw (fault : Fault) : Careful watched known (throw fault : Op α) parts :=
  fun _ tidy _ => .throw tidy fault

/-- The second operation is given the result of the first one as well. -/
theorem bind (first : Careful watched known op parts)
    (second : ∀ a, Careful watched (known ++ parts a) (next a) others) :
    Careful watched known (op >>= next) others :=
  fun store tidy exist => (first store tidy exist).bind fun a after tidy within result =>
    second a after tidy fun value member => by
      obtain old | new := List.mem_append.1 member
      · exact (exist value old).mono within
      · exact result value new

theorem get {next : Store → Op β} (second : ∀ store, store.Tidy watched →
      (∀ value ∈ known, store.Has watched value) → Gives watched store (next store) others) :
    Careful watched known (get >>= next) others := second

/-- What is done with what is read from the store does not depend on where it was read. -/
theorem peek {next : Store → Op β} (second : ∀ store, Careful watched known (next store) others) :
    Careful watched known (MonadState.get >>= next) others := fun store => second store store

theorem read (kept : ∀ store, Keeps (· = store) op)
    (second : ∀ a, Careful watched known (next a) others) :
    Careful watched known (op >>= next) others :=
  fun store tidy exist => .read tidy (kept store) fun a => second a store tidy exist

theorem map (f : α → β) (careful : Careful watched known op parts)
    (less : ∀ a, others (f a) ⊆ parts a) : Careful watched known (f <$> op) others := by
  rw [map_eq_pure_bind]
  exact bind careful fun a => pure (List.subset_append_of_subset_right _ (less a))

/-- What leaves the store as it is and gives no value. -/
theorem of_keeps (kept : ∀ store, Keeps (· = store) op) :
    Careful watched known op fun _ => [] := by
  rw [← bind_pure op]
  exact read kept fun _ => pure (List.nil_subset _)

theorem mapM {f : α → Op β} (each : ∀ a, Careful watched known (f a) others) (items : List α) :
    Careful watched known (items.mapM f) (·.flatMap others) := by
  induction items with
  | nil => exact pure (List.nil_subset _)
  | cons item rest ih =>
      rw [List.mapM_cons]
      refine bind (each item) fun b => bind (ih.of_subset (List.subset_append_left ..)) fun bs => ?_
      refine pure ?_
      rw [List.flatMap_cons, List.append_assoc]
      exact List.subset_append_right ..

theorem mapOption {f : α → Op β} (each : ∀ a, Careful watched known (f a) others)
    (item : Option α) : Careful watched known (item.mapM f) (·.elim [] others) := by
  cases item with
  | none => exact pure (List.nil_subset _)
  | some a => exact bind (each a) fun b => pure (List.subset_append_right ..)

theorem tryCatch {handler : Fault → Op α} (first : Careful watched known op parts)
    (second : ∀ fault, Careful watched known (handler fault) parts) :
    Careful watched known (tryCatch op handler) parts := by
  intro store tidy exist
  have between := first store tidy exist
  unfold Gives Ends at between ⊢
  cases run : op.run store with
  | ok a after =>
      have caught : (MonadExcept.tryCatch op handler).run store = .ok a after := by
        change EStateM.tryCatch op handler store = _
        rw [EStateM.run] at run
        rw [EStateM.tryCatch, run]
      rwa [caught, ← run]
  | error fault after =>
      have caught : (MonadExcept.tryCatch op handler).run store = (handler fault).run after := by
        change EStateM.tryCatch op handler store = _
        rw [EStateM.run] at run
        rw [EStateM.tryCatch, run]
        rfl
      simp only [run] at between
      have rest := second fault after between.1 fun value member =>
        (exist value member).mono between.2
      unfold Gives Ends at rest
      rw [caught]
      split at rest
      · exact ⟨rest.1, between.2.trans rest.2.1, rest.2.2⟩
      · exact ⟨rest.1, between.2.trans rest.2⟩

end Careful

end PhpDecl.Op
