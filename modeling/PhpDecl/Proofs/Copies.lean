import Mathlib.Data.List.Forall2
import PhpDecl.Proofs.Arenas
import PhpDecl.Proofs.Embed
import PhpDecl.Proofs.Paths

/-!
# Copies of values

A copy shows the same as the value along every path, and is spelled out, or refused, as the value
is: how much two parts of a value share is nowhere to be seen in its text. What can be spelled out
has a copy in which nothing is shared, so that no two paths lead to one container.
-/

namespace PhpDecl

/-- The parts of a literal, in the order of the parts of a container. -/
def Literal.parts : Literal → List Literal
  | .atom _ => []
  | .list items | .tuple items => items
  | .dict entries => entries.flatMap fun entry => [entry.1, entry.2]

namespace Graph

variable {graph other : Graph} {value copy : Value} {bound : DigitBound} {depth : Nat}

/-- What a value shows before its parts are looked at. -/
inductive Shape
  | plain (value : Value)
  | container (type : TypeTag) (size : Nat)

def shape (graph : Graph) : Value → Shape
  | .node h => .container (graph.get h).type (graph.get h).parts.length
  | value => .plain value

theorem shape_of_ne_node (plain : ∀ h, value ≠ .node h) : graph.shape value = .plain value := by
  cases value with
  | node h => exact absurd rfl (plain h)
  | _ => rfl

/-- A value of another graph shows the same along every path. -/
def Copies (other : Graph) (copy : Value) (graph : Graph) (value : Value) : Prop :=
  ∀ path, (other.at? copy path).map other.shape = (graph.at? value path).map graph.shape

theorem Copies.shape_eq (copies : other.Copies copy graph value) :
    other.shape copy = graph.shape value := by
  simpa [at?] using copies []

/-- A copy of a container is one of the same type, and a copy of anything else is the thing. -/
theorem Copies.cases (copies : other.Copies copy graph value) :
    (∃ h k, copy = .node h ∧ value = .node k ∧ (other.get h).type = (graph.get k).type) ∨
      (copy = value ∧ ∀ h, value ≠ .node h) := by
  have shown := copies.shape_eq
  by_cases copied : ∃ h, copy = .node h
  · obtain ⟨h, rfl⟩ := copied
    by_cases original : ∃ k, value = .node k
    · obtain ⟨k, rfl⟩ := original
      injection shown with type _
      exact .inl ⟨h, k, rfl, rfl, type⟩
    · rw [shape_of_ne_node (not_exists.1 original)] at shown
      cases shown
  · rw [shape_of_ne_node (not_exists.1 copied)] at shown
    by_cases original : ∃ k, value = .node k
    · obtain ⟨k, rfl⟩ := original
      cases shown
    · rw [shape_of_ne_node (not_exists.1 original)] at shown
      injection shown with same
      exact .inr ⟨same, not_exists.1 original⟩

/-- The parts of a copy are copies of the parts. -/
theorem Copies.parts (copies : other.Copies copy graph value) :
    List.Forall₂ (fun part original => other.Copies part graph original) (other.parts copy)
      (graph.parts value) := by
  have size : (other.parts copy).length = (graph.parts value).length := by
    have shown := copies.shape_eq
    cases copy <;> cases value <;> simp_all [shape, Graph.parts]
  refine List.forall₂_iff_get.2 ⟨size, fun position inCopy inValue path => ?_⟩
  simpa [at?, inCopy, inValue] using copies (position :: path)

theorem forall₂_of_mapM {α β ε : Type} {f : α → Except ε β} {items : List α} {results : List β}
    (all : items.mapM f = .ok results) : List.Forall₂ (fun a b => f a = .ok b) items results := by
  induction items generalizing results with
  | nil =>
      cases all
      exact .nil
  | cons first rest ih =>
      obtain ⟨b, others, head, tail, rfl⟩ := exists_of_mapM_cons all
      exact .cons head (ih tail)

theorem exists_of_mem_right {α β : Type} {R : α → β → Prop} {items : List α} {results : List β}
    (each : List.Forall₂ R items results) {b : β} (member : b ∈ results) : ∃ a ∈ items, R a b := by
  induction each with
  | nil => cases member
  | cons taken _ ih =>
      obtain rfl | member := List.mem_cons.1 member
      · exact ⟨_, .head _, taken⟩
      · obtain ⟨a, inside, same⟩ := ih member
        exact ⟨a, .tail _ inside, same⟩

/-- What is related to a list that is split is split with it. -/
theorem exists_split_of_forall₂ {α β : Type} {R : α → β → Prop} {front rest : List α} {a : α}
    {results : List β} (each : List.Forall₂ R (front ++ a :: rest) results) :
    ∃ before b others, results = before ++ b :: others ∧ R a b ∧ List.Forall₂ R rest others := by
  induction front generalizing results with
  | nil =>
      cases each with
      | cons first others => exact ⟨[], _, _, rfl, first, others⟩
  | cons head front ih =>
      cases each with
      | cons _ each =>
          obtain ⟨before, b, others, rfl, first, tail⟩ := ih each
          exact ⟨_ :: before, b, others, rfl, first, tail⟩

/-- The parts of entries are spelled out as the parts of what the entries are spelled out as. -/
theorem forall₂_parts_of_mapM {spell : Value → Except DumpFault Literal}
    {entries : List (Value × Value)} {results : List (Literal × Literal)}
    (all : entries.mapM (unfoldEntry spell) = .ok results) :
    List.Forall₂ (fun part literal => spell part = .ok literal) (Entries.parts entries)
      (Literal.dict results).parts := by
  induction entries generalizing results with
  | nil =>
      cases all
      exact .nil
  | cons first rest ih =>
      obtain ⟨entry, others, head, tail, rfl⟩ := exists_of_mapM_cons all
      obtain ⟨key, item⟩ := spelled_of_unfoldEntry head
      exact .cons key (.cons item (ih tail))

/-- What a literal shows before its parts are looked at, as the value of an atom does. -/
def literalShape : Literal → Shape
  | .atom a => .plain (.atom a)
  | .list items => .container .list items.length
  | .tuple items => .container .tuple items.length
  | .dict entries => .container .dict (Literal.dict entries).parts.length

/-- What is spelled out shows what the literal shows, and its parts are spelled out as the parts of
the literal. -/
theorem shape_and_parts_of_unfold {literal : Literal}
    (spelled : graph.unfold depth value = .ok literal) :
    graph.shape value = literalShape literal ∧
      List.Forall₂ (fun part inner => ∃ depth, graph.unfold depth part = .ok inner)
        (graph.parts value) literal.parts := by
  obtain ⟨a, rfl⟩ | ⟨h, rfl, type⟩ | unwritten := graph.written_cases value
  · cases eq_of_unfold_atom spelled
    exact ⟨rfl, .nil⟩
  · rw [shape, parts]
    cases content : graph.get h with
    | set items => exact absurd (by rw [content]; rfl) type
    | list items =>
        obtain ⟨inner, literals, rfl, all, rfl⟩ := exists_of_unfold_list content spelled
        have each := forall₂_of_mapM all
        exact ⟨congrArg _ each.length_eq, each.imp fun _ _ same => ⟨inner, same⟩⟩
    | tuple items =>
        obtain ⟨inner, literals, rfl, all, rfl⟩ := exists_of_unfold_tuple content spelled
        have each := forall₂_of_mapM all
        exact ⟨congrArg _ each.length_eq, each.imp fun _ _ same => ⟨inner, same⟩⟩
    | dict entries =>
        obtain ⟨inner, literals, rfl, all, rfl⟩ := exists_of_unfold_dict content spelled
        have each := forall₂_parts_of_mapM all
        exact ⟨congrArg _ each.length_eq, each.imp fun _ _ same => ⟨inner, same⟩⟩
  · exact absurd unwritten (not_unwritten_of_unfold spelled)

/-- The value that a path leads to from several values; its first step says from which. -/
def among? (graph : Graph) (values : List Value) : List Nat → Option Value
  | [] => none
  | position :: path => values[position]?.bind (graph.at? · path)

/-- The containers that paths lead to have their places from `low` on and below `high`, and no two
paths lead to the same one. -/
structure Separate (low high : Nat) (reached : List Nat → Option Value) : Prop where
  ordered : low ≤ high
  within : ∀ {path h}, reached path = some (.node h) → low ≤ h.index ∧ h.index < high
  unshared : ∀ {path path' h}, reached path = some (.node h) → reached path' = some (.node h) →
    path = path'

namespace Separate

variable {low middle high : Nat} {values : List Value}

theorem nil : Separate low low (graph.among? []) := by
  have nowhere (path : List Nat) : graph.among? [] path = none := by
    cases path <;> simp [among?]
  exact ⟨le_refl low, fun leads => by simp [nowhere] at leads,
    fun leads => by simp [nowhere] at leads⟩

theorem atom (a : Atom) : Separate low low (graph.at? (.atom a)) := by
  have nowhere (path : List Nat) (h : Handle .node) :
      graph.at? (.atom a) path ≠ some (.node h) := by
    cases path <;> simp [at?, parts]
  exact ⟨le_refl low, fun leads => absurd leads (nowhere _ _),
    fun leads => absurd leads (nowhere _ _)⟩

/-- Values whose containers lie behind those of the first one. -/
theorem cons (first : Separate low middle (graph.at? value))
    (others : Separate middle high (graph.among? values)) :
    Separate low high (graph.among? (value :: values)) := by
  have firstOrdered := first.ordered
  have othersOrdered := others.ordered
  -- A path starts at the first value, or at one of the others.
  have step {path : List Nat} {h : Handle .node}
      (leads : graph.among? (value :: values) path = some (.node h)) :
      (∃ inner, path = 0 :: inner ∧ graph.at? value inner = some (.node h)) ∨
        ∃ position inner, path = (position + 1) :: inner ∧
          graph.among? values (position :: inner) = some (.node h) := by
    match path, leads with
    | 0 :: inner, leads => exact .inl ⟨inner, rfl, by simpa [among?] using leads⟩
    | (position + 1) :: inner, leads =>
        exact .inr ⟨position, inner, rfl, by simpa [among?] using leads⟩
  refine ⟨firstOrdered.trans othersOrdered, fun leads => ?_, fun leads leads' => ?_⟩
  · obtain ⟨inner, rfl, onward⟩ | ⟨position, inner, rfl, onward⟩ := step leads
    · have := first.within onward
      omega
    · have := others.within onward
      omega
  · obtain ⟨inner, rfl, onward⟩ | ⟨position, inner, rfl, onward⟩ := step leads <;>
      obtain ⟨inner', rfl, onward'⟩ | ⟨position', inner', rfl, onward'⟩ := step leads'
    · rw [first.unshared onward onward']
    · have before := first.within onward
      have behind := others.within onward'
      omega
    · have before := first.within onward'
      have behind := others.within onward
      omega
    · cases others.unshared onward onward'
      rfl

/-- A container that lies behind those of its parts. -/
theorem node {h : Handle .node} (inside : Separate low h.index (graph.among? values))
    (content : graph.parts (.node h) = values) :
    Separate low (h.index + 1) (graph.at? (.node h)) := by
  subst content
  have ordered := inside.ordered
  have onward {position : Nat} {path : List Nat} {k : Handle .node}
      (leads : graph.at? (.node h) (position :: path) = some (.node k)) :
      graph.among? (graph.parts (.node h)) (position :: path) = some (.node k) := leads
  refine ⟨by omega, fun {path k} leads => ?_, fun {path path' k} leads leads' => ?_⟩
  · cases path with
    | nil =>
        cases leads
        omega
    | cons position path =>
        have := inside.within (onward leads)
        omega
  · -- The container itself lies behind everything that a step leads to.
    cases path with
    | nil =>
        cases path' with
        | nil => rfl
        | cons position' path' =>
            cases leads
            exact absurd (inside.within (onward leads')).2 (lt_irrefl _)
    | cons position path =>
        cases path' with
        | nil =>
            cases leads'
            exact absurd (inside.within (onward leads)).2 (lt_irrefl _)
        | cons position' path' => exact inside.unshared (onward leads) (onward leads')

end Separate

mutual

/-- The containers of a literal that is put into the graph are new ones, each for one path. -/
theorem separate_embed (graph : Graph) : ∀ (literal : Literal) (bigger : Graph),
    bigger.Extends (graph.embed literal).1 →
      Separate graph.size (graph.embed literal).1.size (bigger.at? (graph.embed literal).2)
  | .atom a, bigger, holds => .atom a
  | .list items, bigger, holds => by
      have inside := separate_embedItems graph items bigger (holds.trans (.push _ _))
      have content : bigger.parts (.node (graph.embedItems items).1.next) =
          (graph.embedItems items).2 := by
        rw [parts, holds.get_next, Node.parts]
      rw [embed, Arena.size_push]
      exact inside.node content
  | .tuple items, bigger, holds => by
      have inside := separate_embedItems graph items bigger (holds.trans (.push _ _))
      have content : bigger.parts (.node (graph.embedItems items).1.next) =
          (graph.embedItems items).2 := by
        rw [parts, holds.get_next, Node.parts]
      rw [embed, Arena.size_push]
      exact inside.node content
  | .dict entries, bigger, holds => by
      have inside := separate_embedEntries graph entries bigger (holds.trans (.push _ _))
      have content : bigger.parts (.node (graph.embedEntries entries).1.next) =
          Entries.parts (graph.embedEntries entries).2 := by
        rw [parts, holds.get_next, Node.parts]
      rw [embed, Arena.size_push]
      exact inside.node content

theorem separate_embedItems (graph : Graph) : ∀ (items : List Literal) (bigger : Graph),
    bigger.Extends (graph.embedItems items).1 →
      Separate graph.size (graph.embedItems items).1.size
        (bigger.among? (graph.embedItems items).2)
  | [], bigger, holds => .nil
  | item :: rest, bigger, holds => by
      have more := (unfold_embedItems (graph.embed item).1 rest).1
      exact (separate_embed graph item bigger (holds.trans more)).cons
        (separate_embedItems (graph.embed item).1 rest bigger holds)

theorem separate_embedEntries (graph : Graph) :
    ∀ (entries : List (Literal × Literal)) (bigger : Graph),
      bigger.Extends (graph.embedEntries entries).1 →
        Separate graph.size (graph.embedEntries entries).1.size
          (bigger.among? (Entries.parts (graph.embedEntries entries).2))
  | [], bigger, holds => .nil
  | (key, item) :: rest, bigger, holds => by
      have more := (unfold_embed (graph.embed key).1 item).1
      have evenMore := (unfold_embedEntries ((graph.embed key).1.embed item).1 rest).1
      have behindKey := holds.trans evenMore
      exact (separate_embed graph key bigger (behindKey.trans more)).cons
        ((separate_embed (graph.embed key).1 item bigger behindKey).cons
          (separate_embedEntries ((graph.embed key).1.embed item).1 rest bigger holds))

end

end Graph

end PhpDecl
