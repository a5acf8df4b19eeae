/-!
# Arenas

Objects that are shared or changed live in arenas and are reached by handles. A handle says in
its type which arena it belongs to. An arena only grows, so a handle stays good; one that was
never given out reads a default.
-/

namespace PhpDecl

inductive Role
  | node
  | scope
  | shortener
  | classType
  | constant
  | property
  | parameter
  | method
  | map
  deriving DecidableEq, Repr

structure Handle (role : Role) where
  index : Nat
  deriving DecidableEq, Repr

/-- An object that takes part in a change: one that exists, or a new one, not yet stored. -/
inductive Draft (role : Role) (α : Type)
  | existing (h : Handle role)
  | new (value : α)

structure Arena (role : Role) (α : Type) where
  slots : Array α

namespace Arena

variable {role : Role} {α : Type}

/-- The arena without objects. -/
def empty : Arena role α := ⟨#[]⟩

def size (arena : Arena role α) : Nat := arena.slots.size

/-- The object behind a handle. -/
def get [Inhabited α] (arena : Arena role α) (h : Handle role) : α :=
  arena.slots[h.index]?.getD default

/-- Replace the object behind a handle. -/
def set (arena : Arena role α) (h : Handle role) (value : α) : Arena role α :=
  ⟨arena.slots.setIfInBounds h.index value⟩

def next (arena : Arena role α) : Handle role := ⟨arena.size⟩

/-- Add an object, which gets the handle `next`. -/
def push (arena : Arena role α) (value : α) : Arena role α := ⟨arena.slots.push value⟩

/-- The handle of a draft; a new object is added first. -/
def settle (arena : Arena role α) : Draft role α → Arena role α × Handle role
  | .existing h => (arena, h)
  | .new value => (arena.push value, arena.next)

/-- Whether a handle was given out by the arena. -/
def Has (arena : Arena role α) (h : Handle role) : Prop := h.index < arena.size

theorem get_push_next [Inhabited α] (arena : Arena role α) (value : α) :
    (arena.push value).get arena.next = value := by
  simp [get, push, next, size]

theorem get_push_of_has [Inhabited α] {arena : Arena role α} {h : Handle role}
    (has : arena.Has h) (value : α) : (arena.push value).get h = arena.get h := by
  have differs : h.index ≠ arena.slots.size := Nat.ne_of_lt has
  simp [get, push, Array.getElem?_push, differs]

theorem get_set_self [Inhabited α] {arena : Arena role α} {h : Handle role}
    (has : arena.Has h) (value : α) : (arena.set h value).get h = value := by
  have bound : h.index < arena.slots.size := has
  simp [get, set, bound]

theorem get_set_of_ne [Inhabited α] (arena : Arena role α) {h other : Handle role}
    (differs : h ≠ other) (value : α) : (arena.set h value).get other = arena.get other := by
  have index : h.index ≠ other.index := fun same => differs (by cases h; cases other; simp_all)
  simp [get, set, index]

end Arena

end PhpDecl
