import PhpDecl.Store

/-!
# What operations keep

A property of stores is kept by an operation when it holds after it whenever it held before,
whether the operation succeeds or is refused. The rules of this module follow the ways in which
operations are put together.
-/

namespace PhpDecl.Op

variable {α β : Type} {P : Store → Prop}

/-- The property holds of the store that an operation leaves, with a result or a refusal. -/
def Leaves (P : Store → Prop) : EStateM.Result Fault Store α → Prop
  | .ok _ after => P after
  | .error _ after => P after

/-- The property holds after the operation, and after its refusal, when it held before. -/
def Keeps (P : Store → Prop) (op : Op α) : Prop := ∀ store, P store → Leaves P (op.run store)

/-- The store that an operation leaves, with a result or a refusal. -/
def left {α : Type} (op : Op α) (store : Store) : Store :=
  match op.run store with
  | .ok _ after => after
  | .error _ after => after

theorem left_of_ok {op : Op α} {store after : Store} {a : α} (run : op.run store = .ok a after) :
    op.left store = after := by
  rw [left, run]

theorem left_of_error {op : Op α} {store after : Store} {fault : Fault}
    (run : op.run store = .error fault after) : op.left store = after := by
  rw [left, run]

theorem leaves_iff {op : Op α} {store : Store} : Leaves P (op.run store) ↔ P (op.left store) := by
  rw [left]
  cases op.run store <;> rfl

/-- Behind a result the next operation runs. -/
theorem run_bind_ok {op : Op α} {next : α → Op β} {store between : Store} {a : α}
    (run : op.run store = .ok a between) : (op >>= next).run store = (next a).run between := by
  change EStateM.bind op next store = _
  rw [EStateM.run] at run
  rw [EStateM.bind, run]
  rfl

theorem run_bind_error {op : Op α} {next : α → Op β} {store between : Store} {fault : Fault}
    (run : op.run store = .error fault between) :
    (op >>= next).run store = .error fault between := by
  change EStateM.bind op next store = _
  rw [EStateM.run] at run
  rw [EStateM.bind, run]

/-- After a result the next operation starts from the store that the first one leaves. -/
theorem Leaves.bind {op : Op α} {next : α → Op β} {store : Store}
    (first : Leaves P (op.run store))
    (others : ∀ a after, op.run store = .ok a after → P after → Leaves P ((next a).run after)) :
    Leaves P ((op >>= next).run store) := by
  cases run : op.run store with
  | ok a after =>
      rw [run] at first
      rw [run_bind_ok run]
      exact others a after run first
  | error fault after =>
      rw [run] at first
      rw [run_bind_error run]
      exact first

/-- A result behind another operation comes from a result of that one. -/
theorem exists_of_run_bind {op : Op α} {next : α → Op β} {store after : Store} {b : β}
    (run : (op >>= next).run store = .ok b after) :
    ∃ a between, op.run store = .ok a between ∧ (next a).run between = .ok b after := by
  cases first : op.run store with
  | ok a between => exact ⟨a, between, rfl, (run_bind_ok first).symm.trans run⟩
  | error fault between => cases (run_bind_error first).symm.trans run

namespace Keeps

theorem pure (a : α) : Keeps P (pure a) := fun _ kept => kept

theorem throw (fault : Fault) : Keeps P (throw fault : Op α) := fun _ kept => kept

theorem set {store : Store} (kept : P store) : Keeps P (set store) := fun _ _ => kept

theorem modify {change : Store → Store} (step : ∀ store, P store → P (change store)) :
    Keeps P (modify change) := step

theorem bind {op : Op α} {next : α → Op β} (first : Keeps P op)
    (others : ∀ a, Keeps P (next a)) : Keeps P (op >>= next) :=
  fun store kept => (first store kept).bind fun a after _ between => others a after between

/-- What is read from the store is read from one with the property. -/
theorem get {next : Store → Op β} (others : ∀ store, P store → Keeps P (next store)) :
    Keeps P (get >>= next) := fun store kept => others store kept store kept

theorem tryCatch {op : Op α} {handler : Fault → Op α} (first : Keeps P op)
    (others : ∀ fault, Keeps P (handler fault)) : Keeps P (tryCatch op handler) := by
  intro store kept
  have between := first store kept
  change Leaves P (EStateM.tryCatch op handler store)
  unfold EStateM.tryCatch
  cases run : op store with
  | ok a after =>
      rw [EStateM.run, run] at between
      exact between
  | error fault after =>
      rw [EStateM.run, run] at between
      exact others fault _ between

theorem mapM {f : α → Op β} (each : ∀ a, Keeps P (f a)) (items : List α) :
    Keeps P (items.mapM f) := by
  induction items with
  | nil => exact pure []
  | cons item rest ih =>
      rw [List.mapM_cons]
      exact bind (each item) fun b => bind ih fun others => pure (b :: others)

theorem mapOption {f : α → Op β} (each : ∀ a, Keeps P (f a)) (item : Option α) :
    Keeps P (item.mapM f) := by
  cases item with
  | none => exact pure none
  | some a => exact bind (each a) fun b => pure (some b)

theorem map {op : Op α} (f : α → β) (kept : Keeps P op) : Keeps P (f <$> op) := by
  rw [map_eq_pure_bind]
  exact bind kept fun a => pure (f a)

theorem refuse (fault : Fault) : Keeps P (refuse fault : Op α) :=
  get fun _ _ => throw _

theorem ofExcept (result : Except Fault α) : Keeps P (ofExcept result) := by
  cases result with
  | ok a => exact pure a
  | error fault => exact refuse fault

end Keeps

end PhpDecl.Op
