/-!
# Layout settings

How generated code is laid out: the text of one indentation level, and the line length from
which arrays and parameter lists are written one entry a line.
-/

namespace PhpDecl

/-- The layout settings. A wrap length may be any integer: a negative one wraps everything. -/
structure Layout where
  indentation : String
  /-- The line length above which lists are wrapped. -/
  wrapLength : Int
  deriving DecidableEq, Repr

namespace Layout

/-- A tab a level, and lines of up to a hundred characters. -/
def standard : Layout := ⟨"\t", 100⟩

def unit (layout : Layout) : List Char := layout.indentation.toList

/-- The indentation of a nesting level. Where a level is indented by nothing, so is any number
of levels, however large. -/
def margin (layout : Layout) (level : Nat) : List Char :=
  if layout.unit.isEmpty then [] else (List.replicate level layout.unit).flatten

/-- The margin of a level is as many units. -/
theorem margin_eq_flatten (layout : Layout) (level : Nat) :
    layout.margin level = (List.replicate level layout.unit).flatten := by
  rw [margin]
  split
  · next empty =>
    rw [List.isEmpty_iff.1 empty]
    exact (List.flatten_replicate_nil).symm
  · rfl

@[simp] theorem margin_zero (layout : Layout) : layout.margin 0 = [] := by
  simp [margin_eq_flatten]

theorem margin_succ (layout : Layout) (level : Nat) :
    layout.margin (level + 1) = layout.unit ++ layout.margin level := by
  simp [margin_eq_flatten, List.replicate_succ]

theorem margin_add (layout : Layout) (a b : Nat) :
    layout.margin (a + b) = layout.margin a ++ layout.margin b := by
  simp only [margin_eq_flatten, ← List.flatten_append, List.replicate_append_replicate]

end Layout

end PhpDecl
