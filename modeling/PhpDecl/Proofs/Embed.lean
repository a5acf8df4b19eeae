import PhpDecl.Proofs.Unfolding

/-!
# Putting literals into the graph and back

A literal that is put into the graph of values is spelled out as itself again, in this graph and
in every one that holds more. So a literal that is shallow enough is written as its text, under
every layout.
-/

namespace PhpDecl.Graph

/-- The first graph holds what the second one does, under the same handles. -/
def Extends (bigger smaller : Graph) : Prop :=
  ∀ h, smaller.Has h → bigger.Has h ∧ bigger.get h = smaller.get h

namespace Extends

theorem refl (graph : Graph) : graph.Extends graph := fun _ has => ⟨has, rfl⟩

theorem trans {third second first : Graph} (h : third.Extends second)
    (h' : second.Extends first) : third.Extends first := by
  intro handle has
  obtain ⟨between, same⟩ := h' handle has
  obtain ⟨after, same'⟩ := h handle between
  exact ⟨after, same'.trans same⟩

theorem push (graph : Graph) (node : Node) : Extends (graph.push node) graph := by
  intro handle has
  refine ⟨?_, Arena.get_push_of_has has node⟩
  have bound : handle.index < graph.slots.size := has
  show handle.index < (graph.slots.push node).size
  rw [Array.size_push]
  omega

/-- The node that was pushed last is found in every graph that holds more. -/
theorem get_next {bigger graph : Graph} {node : Node}
    (h : bigger.Extends (graph.push node)) : bigger.get graph.next = node := by
  have has : Arena.Has (graph.push node) graph.next := by
    show graph.slots.size < (graph.slots.push node).size
    rw [Array.size_push]
    omega
  exact (h _ has).2.trans (Arena.get_push_next graph node)

end Extends

theorem unfold_of_list {graph : Graph} {h : Handle .node} {values : List Value}
    {items : List Literal} {depth : Nat} (content : graph.get h = .list values)
    (all : values.mapM (graph.unfold depth) = .ok items) :
    graph.unfold (depth + 1) (.node h) = .ok (.list items) := by
  rw [unfold.eq_def]
  simp only [content, all, bind, Except.bind, pure, Except.pure]

theorem unfold_of_tuple {graph : Graph} {h : Handle .node} {values : List Value}
    {items : List Literal} {depth : Nat} (content : graph.get h = .tuple values)
    (all : values.mapM (graph.unfold depth) = .ok items) :
    graph.unfold (depth + 1) (.node h) = .ok (.tuple items) := by
  rw [unfold.eq_def]
  simp only [content, all, bind, Except.bind, pure, Except.pure]

theorem unfold_of_dict {graph : Graph} {h : Handle .node} {values : List (Value × Value)}
    {entries : List (Literal × Literal)} {depth : Nat} (content : graph.get h = .dict values)
    (all : values.mapM (unfoldEntry (graph.unfold depth)) = .ok entries) :
    graph.unfold (depth + 1) (.node h) = .ok (.dict entries) := by
  rw [unfold.eq_def]
  simp only [content, all, bind, Except.bind, pure, Except.pure]

/-- Below a container there is one level less. -/
theorem exists_depth_below {nesting depth : Nat} (shallow : nesting + 1 ≤ depth) :
    ∃ inner, depth = inner + 1 ∧ nesting ≤ inner :=
  ⟨depth - 1, by omega, by omega⟩

mutual

/-- A literal is spelled out as itself wherever the graph that it was put into is held. -/
theorem unfold_embed (graph : Graph) : ∀ literal : Literal,
    (graph.embed literal).1.Extends graph ∧
      ∀ bigger depth, Extends bigger (graph.embed literal).1 → literal.nesting ≤ depth →
        bigger.unfold depth (graph.embed literal).2 = .ok literal
  | .atom a => ⟨.refl graph, fun bigger depth _ _ => by rw [embed, unfold]⟩
  | .list items => by
      obtain ⟨more, spelled⟩ := unfold_embedItems graph items
      refine ⟨(Extends.push _ _).trans more, fun bigger depth holds shallow => ?_⟩
      obtain ⟨inner, rfl, within⟩ := exists_depth_below shallow
      exact unfold_of_list holds.get_next (spelled bigger inner (holds.trans (.push _ _)) within)
  | .tuple items => by
      obtain ⟨more, spelled⟩ := unfold_embedItems graph items
      refine ⟨(Extends.push _ _).trans more, fun bigger depth holds shallow => ?_⟩
      obtain ⟨inner, rfl, within⟩ := exists_depth_below shallow
      exact unfold_of_tuple holds.get_next (spelled bigger inner (holds.trans (.push _ _)) within)
  | .dict entries => by
      obtain ⟨more, spelled⟩ := unfold_embedEntries graph entries
      refine ⟨(Extends.push _ _).trans more, fun bigger depth holds shallow => ?_⟩
      obtain ⟨inner, rfl, within⟩ := exists_depth_below shallow
      exact unfold_of_dict holds.get_next (spelled bigger inner (holds.trans (.push _ _)) within)

theorem unfold_embedItems (graph : Graph) : ∀ items : List Literal,
    (graph.embedItems items).1.Extends graph ∧
      ∀ bigger depth, Extends bigger (graph.embedItems items).1 →
        Literal.nestingItems items ≤ depth →
          (graph.embedItems items).2.mapM (bigger.unfold depth) = .ok items
  | [] => ⟨.refl graph, fun _ _ _ _ => rfl⟩
  | item :: rest => by
      obtain ⟨more, first⟩ := unfold_embed graph item
      obtain ⟨evenMore, others⟩ := unfold_embedItems (graph.embed item).1 rest
      refine ⟨evenMore.trans more, fun bigger depth holds shallow => ?_⟩
      obtain ⟨shallowItem, shallowRest⟩ := Nat.max_le.1 shallow
      simp only [embedItems, List.mapM_cons, first bigger depth (holds.trans evenMore) shallowItem,
        others bigger depth holds shallowRest]
      rfl

theorem unfold_embedEntries (graph : Graph) : ∀ entries : List (Literal × Literal),
    (graph.embedEntries entries).1.Extends graph ∧
      ∀ bigger depth, Extends bigger (graph.embedEntries entries).1 →
        Literal.nestingEntries entries ≤ depth →
          (graph.embedEntries entries).2.mapM (unfoldEntry (bigger.unfold depth)) = .ok entries
  | [] => ⟨.refl graph, fun _ _ _ _ => rfl⟩
  | (key, item) :: rest => by
      obtain ⟨more, spelledKey⟩ := unfold_embed graph key
      obtain ⟨stillMore, spelledItem⟩ := unfold_embed (graph.embed key).1 item
      obtain ⟨evenMore, others⟩ :=
        unfold_embedEntries ((graph.embed key).1.embed item).1 rest
      refine ⟨evenMore.trans (stillMore.trans more), fun bigger depth holds shallow => ?_⟩
      obtain ⟨shallowEntry, shallowRest⟩ := Nat.max_le.1 shallow
      obtain ⟨shallowKey, shallowItem⟩ := Nat.max_le.1 shallowEntry
      have holdsItem := holds.trans evenMore
      simp only [embedEntries, List.mapM_cons, unfoldEntry,
        spelledKey bigger depth (holdsItem.trans stillMore) shallowKey,
        spelledItem bigger depth holdsItem shallowItem, others bigger depth holds shallowRest]
      rfl

end

/-- A shallow literal is written as its text wherever it is put, under every layout. -/
theorem dump_embed (graph : Graph) (literal : ShallowLiteral) (layout : Layout) :
    (graph.embed literal.literal).1.dump layout (graph.embed literal.literal).2 =
      .ok (literal.literal.text layout) := by
  have spelled := (unfold_embed graph literal.literal).2 _ Literal.maxNesting (.refl _)
    literal.shallow
  rw [dump, dumpWithin, spell_eq_ok_iff.2 ⟨spelled, literal.brief⟩]
  rfl

end PhpDecl.Graph
