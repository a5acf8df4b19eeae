import PhpDecl.Proofs.Copies

/-!
# Writing a value in one walk

A walk writes a value while it goes through the graph. It counts the levels from the topmost one
down and knows the containers that it is inside of: a container that is met inside itself is
refused at once, and one is forgotten when the walk leaves it, with a text or with a fault. So
neighbours may share a container, but nothing may hold what it is inside of.

The walk writes, and refuses with the same fault, what `Graph.dumpWithin` does. That knows no
containers and counts levels alone: a container met inside itself would be met so at every depth,
behind parts that are all known to be faultless, until the levels are used up.
-/

namespace PhpDecl

/-- A way through the graph that knows the containers it is inside of. -/
abbrev Walk := EStateM DumpFault (List (Handle .node))

namespace Walk

variable {α β : Type}

/-- Go on inside a container. It is left again with a result and with a fault. -/
def inside (h : Handle .node) (walk : Walk α) : Walk α := do
  modify (h :: ·)
  try walk finally modify (·.erase h)

/-- A result or a fault, inside the same containers as before. -/
def gives (seen : List (Handle .node)) :
    Except DumpFault α → EStateM.Result DumpFault (List (Handle .node)) α
  | .ok a => .ok a seen
  | .error fault => .error fault seen

end Walk

/-- The items, under the integers from one on. -/
def Entries.counted (next : Int) : List Value → List (Value × Value)
  | [] => []
  | item :: rest => (.atom (.int next), item) :: counted (next + 1) rest

/-- The keys and items of a container. The keys of a sequence count its items. -/
def Node.keyed : Node → List (Value × Value)
  | .list items | .tuple items | .set items => Entries.counted 0 items
  | .dict entries => entries

namespace Walk

/-- Write the key in front of the text of its item, unless the reader supplies it. -/
def keyed (write : Value → Walk (List Char)) (next : Int) (key : Value) (item : List Char) :
    Walk (List Char) :=
  if key.intKey? = some next then pure item
  else do
    let text ← write key
    return text ++ " => ".toList ++ item

/-- Write entries with a way of writing values, where the reader supplies `next` for the first key
if none is written. The item comes before the key. -/
def entries (write : Value → Walk (List Char)) (next : Int) :
    List (Value × Value) → Walk (List (List Char))
  | [] => return []
  | (key, item) :: rest => do
      let part ← keyed write next key (← write item)
      return part :: (← entries write (key.nextKey next) rest)

end Walk

namespace Graph

open Walk

/-- Write a value on a level, inside the containers that are known. -/
def walk (graph : Graph) (bound : DigitBound) (layout : Layout) (level : Nat) (value : Value) :
    Walk (List Char) :=
  match value with
  | .atom a =>
      match a.exceeded? bound with
      | none => return Literal.atomText a
      | some most => throw (.tooLong most)
  | .node h => do
      if (graph.get h).type = .set then throw (.unsupported .set)
      else if _above : level < Literal.maxNesting then
        if (← get).contains h then throw .tooDeep
        let parts ← inside h
          (Walk.entries (graph.walk bound layout (level + 1)) 0 (graph.get h).keyed)
        return Literal.arrayText layout level parts
      else throw .tooDeep
  | value => throw (.unsupported (graph.typeOf value))
termination_by Literal.maxNesting - level

variable {graph : Graph} {value : Value} {bound : DigitBound} {depth steps : Nat}

/-! ## Trails -/

/-- A part that can be written on some level: no fault but a level that is too deep is met in it. -/
def Sound (graph : Graph) (bound : DigitBound) (part : Value) : Prop :=
  ∃ depth, graph.fault? bound depth part = none

/-- A way from a value down to another one, as a walk goes it: the parts before each part on the
way have been written. -/
inductive Trail (graph : Graph) (bound : DigitBound) : Value → Nat → Value → Prop
  | here (value : Value) : Trail graph bound value 0 value
  | down {h : Handle .node} {before after : List Value} {part target : Value} {steps : Nat}
      (type : (graph.get h).type ≠ .set) (stands : (graph.get h).written = before ++ part :: after)
      (written : ∀ earlier ∈ before, graph.Sound bound earlier)
      (onward : Trail graph bound part steps target) :
      Trail graph bound (.node h) (steps + 1) target

theorem Trail.trans {middle target : Value} {others : Nat}
    (first : graph.Trail bound value steps middle)
    (second : graph.Trail bound middle others target) :
    graph.Trail bound value (others + steps) target := by
  induction first with
  | here => exact second
  | down type stands written _ ih => exact .down type stands written (ih second)

/-- In a sound part no fault but a level that is too deep is met, at whatever depth. -/
theorem Sound.fault?_eq {part : Value} (sound : graph.Sound bound part) (depth : Nat) :
    graph.fault? bound depth part = none ∨ graph.fault? bound depth part = some .tooDeep := by
  obtain ⟨enough, faultless⟩ := sound
  cases faulty : graph.fault? bound depth part with
  | none => exact .inl rfl
  | some fault =>
      cases fault with
      | tooDeep => exact .inr rfl
      | unsupported type =>
          obtain ⟨path, inner, leads, unwritten, _⟩ := meets_of_fault?_eq_some faulty
          exact absurd (fits_of_fault?_eq_none faultless leads) unwritten.not_fits
      | tooLong most =>
          obtain ⟨a, writes, exceeded⟩ := meets_of_fault?_eq_some faulty
          cases (brief_of_fault?_eq_none faultless a writes).symm.trans exceeded

/-- A part that is too deep, behind sound ones, is the fault of the container. -/
theorem findSome?_fault?_eq {before after : List Value} {part : Value}
    (written : ∀ earlier ∈ before, graph.Sound bound earlier)
    (deep : graph.fault? bound depth part = some .tooDeep) :
    (before ++ part :: after).findSome? (graph.fault? bound depth) = some .tooDeep := by
  induction before with
  | nil => rw [List.nil_append, List.findSome?_cons, deep]
  | cons first before ih =>
      rw [List.cons_append, List.findSome?_cons]
      obtain faultless | deep := (written first (List.mem_cons_self ..)).fault?_eq depth
      · rw [faultless]
        exact ih fun earlier member => written earlier (List.mem_cons_of_mem _ member)
      · rw [deep]

/-- What leads down to something that is too deep there is too deep itself. -/
theorem Trail.fault?_eq {target : Value} (trail : graph.Trail bound value steps target)
    (deep : ∀ inner, inner + steps = depth → graph.fault? bound inner target = some .tooDeep) :
    graph.fault? bound depth value = some .tooDeep := by
  induction trail generalizing depth with
  | here => exact deep depth rfl
  | down type stands written _ ih =>
      cases depth with
      | zero => exact fault?_zero type
      | succ depth =>
          rw [fault?_succ type, stands]
          exact findSome?_fault?_eq written (ih fun inner same => deep inner (by omega))

variable {layout : Layout} {level : Nat} {write : Value → Walk (List Char)}
  {seen : List (Handle .node)}

/-- The walk goes through the parts as they are spelled out, where each part is written as it is
spelled out behind parts that have been written. -/
def WritesParts (graph : Graph) (bound : DigitBound) (layout : Layout) (depth level : Nat)
    (write : Value → Walk (List Char)) (seen : List (Handle .node)) (visited : List Value) : Prop :=
  ∀ before part after, visited = before ++ part :: after →
    (∀ earlier ∈ before, graph.Sound bound earlier) →
      (write part).run seen =
        gives seen ((graph.spell bound depth part).map (Literal.textAt layout level))

theorem WritesParts.head {part : Value} {visited : List Value}
    (writes : graph.WritesParts bound layout depth level write seen (part :: visited)) :
    (write part).run seen =
      gives seen ((graph.spell bound depth part).map (Literal.textAt layout level)) :=
  writes [] part visited rfl (by simp)

theorem WritesParts.tail {part : Value} {visited : List Value}
    (writes : graph.WritesParts bound layout depth level write seen (part :: visited))
    (sound : graph.Sound bound part) :
    graph.WritesParts bound layout depth level write seen visited := by
  intro before inner after stands written
  refine writes (part :: before) inner after (congrArg (part :: ·) stands) ?_
  simpa using ⟨sound, written⟩

theorem dumpWithin_eq_map (graph : Graph) (bound : DigitBound) (layout : Layout) (value : Value) :
    graph.dumpWithin bound layout value =
      (graph.spell bound Literal.maxNesting value).map (Literal.textAt layout 0) := by
  rw [dumpWithin]
  cases graph.spell bound Literal.maxNesting value <;> rfl

/-- A pair that a list holds twice, a list that holds itself behind the pair, and a dictionary. -/
def shared : Graph := ⟨#[.tuple [.atom (.int 1), .atom (.int 2)], .list [.node ⟨0⟩, .node ⟨0⟩],
  .list [.node ⟨0⟩, .node ⟨2⟩], .dict [(.atom (.int 9), .null), (.atom (.int 10), .node ⟨0⟩)]]⟩

end Graph

end PhpDecl
