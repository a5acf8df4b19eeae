import PhpDecl.Fault.Message
import PhpDecl.Proofs.Walk

/-!
# Integers that are too long

An integer that has more digits than can be written is refused where a value is dumped, and it
keeps a fault from being worded in which the value is shown. In both cases it stands in the value,
or in what a member there holds (`Store.Contains`).
-/

namespace PhpDecl

namespace Store

/-- An integer stands in a value: it is the value, or stands in a part of it, or in the values that
a member holds. -/
inductive Contains (store : Store) (n : Int) : Value → Prop
  | self : Contains store n (.atom (.int n))
  | part {h : Handle .node} {part : Value} (member : part ∈ (store.nodes.get h).parts)
      (onward : Contains store n part) : Contains store n (.node h)
  | key {h : Handle .map} {item : Value × Value} (member : item ∈ (store.maps.get h).items)
      (onward : Contains store n item.1) : Contains store n (.map h)
  | constant {h : Handle .constant}
      (holds : .int n ∈ (store.constants.get h).value.literal.atoms) :
      Contains store n (.constant h)
  | property {h : Handle .property}
      (holds : .int n ∈ (store.properties.get h).value.literal.atoms) :
      Contains store n (.property h)
  | parameter {h : Handle .parameter}
      (holds : .int n ∈ (store.parameters.get h).defaultValue.literal.atoms) :
      Contains store n (.parameter h)
  | method {h : Handle .method} {parameter : Parameter}
      (member : parameter ∈ (store.plainMethod h).parameters.values)
      (holds : .int n ∈ parameter.defaultValue.literal.atoms) : Contains store n (.method h)

variable {store : Store} {value : Value} {n : Int} {most : Nat}

/-- What is shown of a value stands in it. -/
theorem contains_of_shown {depth : Nat} {inside : List (Handle .node)}
    (shown : .int n ∈ store.shownAtoms depth inside value) : store.Contains n value := by
  fun_induction shownAtoms store depth inside value with
  | case1 _ _ a =>
      cases List.mem_singleton.1 shown
      exact .self
  | case2 => exact .constant shown
  | case3 => exact .property shown
  | case4 => exact .parameter shown
  | case5 =>
      obtain ⟨parameter, member, holds⟩ := List.mem_flatMap.1 shown
      exact .method member holds
  | case6 => cases shown
  | case7 _ _ _ _ ih =>
      obtain ⟨part, member, onward⟩ := List.mem_flatMap.1 shown
      exact .part member (ih part onward)
  | case8 _ _ _ ih =>
      obtain ⟨item, member, onward⟩ := List.mem_flatMap.1 shown
      exact .key member (ih item onward)
  | case9 => cases shown

theorem exists_of_exceeded {bound : DigitBound} {a : Atom}
    (exceeded : a.exceeded? bound = some most) :
    ∃ n, a = .int n ∧ bound = some most ∧ most < digitCount n := by
  cases a with
  | int n =>
      obtain ⟨same, long⟩ := Option.filter_eq_some_iff.1 exceeded
      exact ⟨n, rfl, same, by simpa using long⟩
  | _ => cases exceeded

/-- A value that cannot be shown holds an integer that is too long. -/
theorem exists_of_not_shown (exceeded : store.exceeded? value = some most) :
    ∃ n, store.Contains n value ∧ 4300 < digitCount n := by
  obtain ⟨a, shown, exceeded⟩ := List.exists_of_findSome?_eq_some exceeded
  obtain ⟨n, rfl, same, long⟩ := exists_of_exceeded exceeded
  cases same
  exact ⟨n, contains_of_shown shown, long⟩

theorem contains_of_writes (writes : store.nodes.Writes value (.atom (.int n))) :
    store.Contains n value := by
  generalize target : Value.atom (.int n) = part at writes
  induction writes with
  | here => exact target ▸ .self
  | part type member _ ih => exact .part (Node.mem_parts_of_mem_written member) (ih target)

/-- A value that is refused for an integer that is too long holds one. -/
theorem exists_of_tooLong {layout : Layout}
    (refused : store.nodes.dump layout value = .error (.tooLong most)) :
    ∃ n, store.Contains n value ∧ 4300 < digitCount n := by
  rw [Graph.dump, Graph.dumpWithin_eq_map] at refused
  have faulty : store.nodes.fault? .standard Literal.maxNesting value = some (.tooLong most) := by
    rw [Graph.fault?]
    cases spelled : store.nodes.spell .standard Literal.maxNesting value with
    | ok literal => rw [spelled] at refused; cases refused
    | error fault => rw [spelled] at refused; cases refused; rfl
  obtain ⟨a, writes, exceeded⟩ := Graph.meets_of_fault?_eq_some faulty
  obtain ⟨n, rfl, same, long⟩ := exists_of_exceeded exceeded
  cases same
  exact ⟨n, contains_of_writes writes, long⟩

theorem exists_of_tooLong?_dump {fault : DumpFault}
    (refused : store.nodes.dump .standard value = .error fault) {other : Store}
    (unworded : other.tooLong? (.notDumpable fault) = some most) :
    ∃ n, store.Contains n value ∧ 4300 < digitCount n := by
  cases fault with
  | tooLong _ => exact exists_of_tooLong refused
  | _ => cases unworded

end Store

end PhpDecl
