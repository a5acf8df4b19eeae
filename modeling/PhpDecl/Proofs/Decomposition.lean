import PhpDecl.Proofs.Literals
import PhpDecl.Proofs.Placement
import PhpDecl.Proofs.Rendering

/-!
# The layout of a declaration, member by member

A declaration is indented and normalized as a whole. Every member starts and ends with a character
that neither pass touches, so the text is the same as if each member had been indented and
normalized by itself and the members had been laid out afterwards, with the blank lines that
belong between them.
-/

namespace PhpDecl

open Text

/-! ## Groups of members -/

/-- The groups of members, in the order in which they are written. -/
inductive MemberGroup
  | traits
  | constants
  | properties
  | methods
  deriving DecidableEq, Repr

namespace MemberGroup

/-- The number of blank lines between two members of the group. -/
def blanksWithin : MemberGroup → Nat
  | traits | constants => 0
  | properties => 1
  | methods => 2

/-- The number of blank lines between the group and the next one that is not empty. -/
def blanksBehind : MemberGroup → Nat
  | traits | constants => 1
  | properties => 2
  | methods => 0

/-- The number of blank lines between a member of the group and the next member. -/
def blanksBefore (group next : MemberGroup) : Nat :=
  if group = next then group.blanksWithin else group.blanksBehind

end MemberGroup

/-- The end of a line, and blank lines behind it. -/
def feeds (blanks : Nat) : List Char := List.replicate (blanks + 1) '\n'

/-- Members one after the other, with the blank lines of their groups between them and a single
line feed behind the last. -/
def laidOut : List (MemberGroup × List Char) → List Char
  | [] => []
  | [(_, text)] => text ++ ['\n']
  | (group, text) :: (next, other) :: rest =>
      text ++ feeds (group.blanksBefore next) ++ laidOut ((next, other) :: rest)

/-- A group of members written one after the other. -/
theorem laidOut_group (group : MemberGroup) {texts : List (List Char)} (some : texts ≠ [])
    {rest : List (MemberGroup × List Char)} (apart : ∀ piece ∈ rest, group ≠ piece.1) :
    laidOut (texts.map (group, ·) ++ rest) = joined (feeds group.blanksWithin) texts ++
      if rest.isEmpty then ['\n'] else feeds group.blanksBehind ++ laidOut rest := by
  induction texts with
  | nil => exact absurd rfl some
  | cons text texts ih =>
      cases texts with
      | nil =>
          cases rest with
          | nil => rfl
          | cons piece rest =>
              have behind : group.blanksBefore piece.1 = group.blanksBehind :=
                if_neg (apart piece (.head _))
              simp [laidOut, joined, behind]
      | cons second others =>
          have within : group.blanksBefore group = group.blanksWithin := if_pos rfl
          have later := ih (List.cons_ne_nil _ _)
          simp only [List.map_cons, List.cons_append] at later ⊢
          rw [laidOut, within, later, joined_cons_of_ne_nil _ _ (List.cons_ne_nil _ _)]
          simp only [List.append_assoc]

namespace Declaration

/-- A group of members as it is joined, with the separator behind it. -/
def separated (part : MemberGroup × List (List Char)) : List Char × List Char :=
  (joined (feeds part.1.blanksWithin) part.2, feeds part.1.blanksBehind)

/-- The members of several groups, each with its group. -/
def pieces (parts : List (MemberGroup × List (List Char))) : List (MemberGroup × List Char) :=
  parts.flatMap fun part => part.2.map (part.1, ·)

theorem joined_ne_nil (separator : List Char) {texts : List (List Char)} (some : texts ≠ [])
    (written : ∀ text ∈ texts, text ≠ []) : joined separator texts ≠ [] := by
  cases texts with
  | nil => exact absurd rfl some
  | cons text texts =>
      cases texts with
      | nil => exact written text (.head _)
      | cons second others =>
          rw [joined_cons_of_ne_nil _ _ (List.cons_ne_nil _ _), List.append_assoc]
          exact List.append_ne_nil_of_left_ne_nil (written text (.head _)) _

theorem joinGroups_separated_of_nil {parts : List (MemberGroup × List (List Char))}
    (none : pieces parts = []) (pending : List Char) :
    joinGroups pending (parts.map separated) = [] := by
  induction parts with
  | nil => rfl
  | cons part parts ih =>
      rw [pieces, List.flatMap_cons, List.append_eq_nil_iff, List.map_eq_nil_iff] at none
      rw [List.map_cons, separated, none.1]
      exact ih none.2

/-- Joining groups lays out their members, behind the pending separator. -/
theorem exists_joinGroups_separated {parts : List (MemberGroup × List (List Char))}
    (written : ∀ part ∈ parts, ∀ text ∈ part.2, text ≠ [])
    (distinct : parts.Pairwise (·.1 ≠ ·.1)) (some : pieces parts ≠ []) (pending : List Char) :
    ∃ text, text ≠ [] ∧ joinGroups pending (parts.map separated) = pending ++ text ∧
      text ++ ['\n'] = laidOut (pieces parts) := by
  induction parts generalizing pending with
  | nil => exact absurd rfl some
  | cons part parts ih =>
      obtain ⟨apart, distinct⟩ := List.pairwise_cons.1 distinct
      have ih := ih (fun part member => written part (.tail _ member)) distinct
      have split : pieces (part :: parts) = part.2.map (part.1, ·) ++ pieces parts := rfl
      by_cases empty : part.2 = []
      · rw [split, empty] at some ⊢
        rw [List.map_cons, separated, empty]
        exact ih some pending
      · have text := joined_ne_nil (feeds part.1.blanksWithin) empty (written part (.head _))
        have others : ∀ piece ∈ pieces parts, part.1 ≠ piece.1 := by
          intro piece member
          obtain ⟨other, later, inside⟩ := List.mem_flatMap.1 member
          obtain ⟨_, _, rfl⟩ := List.mem_map.1 inside
          exact apart other later
        rw [split, laidOut_group part.1 empty others, List.map_cons, separated, joinGroups,
          if_neg (by simpa using text)]
        -- What comes behind the group is the end of the body, or its separator and more groups.
        by_cases last : pieces parts = []
        · refine ⟨joined (feeds part.1.blanksWithin) part.2, text, ?_, ?_⟩
          · rw [joinGroups_separated_of_nil last, List.append_nil]
          · rw [last]
            rfl
        · obtain ⟨more, _, joins, lays⟩ := ih last (feeds part.1.blanksBehind)
          refine ⟨joined (feeds part.1.blanksWithin) part.2 ++
            (feeds part.1.blanksBehind ++ more), List.append_ne_nil_of_left_ne_nil text _, ?_, ?_⟩
          · rw [joins, List.append_assoc]
          · rw [if_neg (by simpa using last), ← lays]
            simp only [List.append_assoc]

variable (d : PlainDeclaration) (shortener : Shortener) (layout : Layout)

/-- The members of a declaration as they are written one by one, group by group. -/
def fragmentGroups : List (MemberGroup × List (List Char)) :=
  [(.traits, d.traits.entries.map (traitClause shortener layout)),
    (.constants, d.constants.values.map (Constant.render layout)),
    (.properties, d.properties.values.map (Property.render layout)),
    (.methods, d.methods.values.map (Method.render shortener layout))]

/-- Every member of a declaration as it is written by itself, in the order of the body. -/
def fragments : List (MemberGroup × List Char) := pieces (d.fragmentGroups shortener layout)

theorem groups_eq :
    d.groups shortener layout = (d.fragmentGroups shortener layout).map separated := rfl

end Declaration

/-! ## Members that keep their ends -/

namespace Text

/-- A character that stays where it stands, and ends no line. -/
def isInk (c : Char) : Bool := isFirm c && !isLineBreak c

theorem exists_cons_of_any_head? {p : Char → Bool} {text : List Char}
    (opens : text.head?.any p = true) : ∃ c rest, text = c :: rest ∧ p c = true := by
  cases text with
  | nil => cases opens
  | cons c rest => exact ⟨c, rest, rfl, opens⟩

theorem settled_feeds (margin : List Char) (start : Bool) (blanks : Nat) (rest : List Char) :
    settled margin start (feeds blanks ++ rest) = feeds blanks ++ settled margin true rest := by
  induction blanks generalizing start with
  | zero => exact settled_feed margin start rest
  | succ blanks ih =>
      have more : feeds (blanks + 1) = '\n' :: feeds blanks := List.replicate_succ
      rw [more, List.cons_append, settled_feed, ih, List.cons_append]

end Text

/-- The text starts and ends with a character that stays. -/
structure Sturdy (text : List Char) : Prop where
  opens : text.head?.any isInk = true
  closes : text.getLast?.any isInk = true

namespace Sturdy

variable {text : List Char}

theorem exists_cons (sturdy : Sturdy text) :
    ∃ c rest, text = c :: rest ∧ isFirm c = true ∧ isLineBreak c = false := by
  obtain ⟨c, rest, same, ink⟩ := exists_cons_of_any_head? sturdy.opens
  exact ⟨c, rest, same, by simpa [isInk] using ink⟩

theorem exists_concat (sturdy : Sturdy text) :
    ∃ front c, text = front ++ [c] ∧ isFirm c = true ∧ isLineBreak c = false := by
  have closes := sturdy.closes
  rcases List.eq_nil_or_concat text with rfl | ⟨front, c, rfl⟩
  · cases closes
  · refine ⟨front, c, List.concat_eq_append, ?_⟩
    simpa [isInk] using closes

theorem ne_nil (sturdy : Sturdy text) : text ≠ [] := by
  obtain ⟨_, _, rfl, _⟩ := sturdy.exists_cons
  exact List.cons_ne_nil _ _

/-- A line feed behind the text leaves it to be settled by itself. -/
theorem settled_append_feeds (sturdy : Sturdy text) (margin : List Char) (start : Bool)
    (blanks : Nat) (rest : List Char) : settled margin start (text ++ feeds blanks ++ rest) =
      settled margin start text ++ feeds blanks ++ settled margin true rest := by
  obtain ⟨front, c, rfl, firm, _⟩ := sturdy.exists_concat
  rw [List.append_assoc, List.append_assoc, List.singleton_append, settled_append firm,
    settled_feeds, List.append_assoc]

/-- Indented by one level, the text comes out of normalizing without being trimmed. -/
theorem normalize_indent (sturdy : Sturdy text) {layout : Layout}
    (blank : layout.unit.all isPad = true) :
    normalize (indent layout 1 text) = settled layout.unit true text := by
  rw [normalize_eq, indent_one, ← settled]
  refine trimBreaks_eq_self ?_ ?_
  · obtain ⟨c, rest, rfl, firm, inside⟩ := sturdy.exists_cons
    have opens := settled_inline blank (List.all_nil : [].all isInline = true) firm inside true rest
    have ne : c ≠ '\n' := (ne_feed_of_not_isLineBreak (Bool.eq_false_iff.1 inside)).2
    -- The text starts with the margin, if there is one, which holds no line feed either.
    have margin := all_isInline_of_all_isPad blank
    rw [List.nil_append] at opens
    rw [opens, List.nil_append, carried_singleton firm inside]
    generalize layout.unit = unit at margin
    cases unit with
    | nil => simpa using ne
    | cons pad _ =>
        rw [List.all_cons, isInline, Bool.and_eq_true, Bool.and_eq_true] at margin
        exact margin.1.2
  · obtain ⟨front, c, rfl, firm, inside⟩ := sturdy.exists_concat
    have ne : c ≠ '\n' := (ne_feed_of_not_isLineBreak (Bool.eq_false_iff.1 inside)).2
    obtain ⟨settledFront, same⟩ := exists_settled_append firm layout.unit true front
    have ended : settled layout.unit true (front ++ [c]) = settledFront ++ [c] := same []
    simp [ended, ne]

end Sturdy

/-- Laid out members settle as each of them does by itself. -/
theorem settled_laidOut {layout : Layout} (blank : layout.unit.all isPad = true)
    {pieces : List (MemberGroup × List Char)} (sturdy : ∀ piece ∈ pieces, Sturdy piece.2) :
    settled layout.unit true (laidOut pieces) =
      laidOut (pieces.map fun piece => (piece.1, normalize (indent layout 1 piece.2))) := by
  fun_induction laidOut pieces with
  | case1 => rfl
  | case2 group text =>
      have sturdy := sturdy (group, text) (.head _)
      have ended := sturdy.settled_append_feeds layout.unit true 0 []
      rw [List.append_nil] at ended
      rw [List.map_singleton, laidOut, sturdy.normalize_indent blank]
      exact ended.trans (List.append_nil _)
  | case3 group text next other rest ih =>
      have ih := ih fun piece member => sturdy piece (.tail _ member)
      have sturdy := sturdy (group, text) (.head _)
      rw [sturdy.settled_append_feeds, ih, ← sturdy.normalize_indent blank]
      rfl

/-! ## The members of a declaration -/

namespace Text

theorem any_head?_append {p : Char → Bool} {first second : List Char}
    (mayOpen : first.head?.all p = true) (opens : second.head?.any p = true) :
    (first ++ second).head?.any p = true := by
  cases first with
  | nil => exact opens
  | cons c rest => exact mayOpen

theorem any_head?_append_left {p : Char → Bool} {first : List Char}
    (opens : first.head?.any p = true) (second : List Char) :
    (first ++ second).head?.any p = true := by
  cases first with
  | nil => cases opens
  | cons c rest => exact opens

theorem all_head?_of_any {p : Char → Bool} {text : List Char}
    (opens : text.head?.any p = true) : text.head?.all p = true := by
  cases text with
  | nil => rfl
  | cons c rest => exact opens

theorem all_head?_textIf {p : Char → Bool} {text : String}
    (opens : text.toList.head?.all p = true) (condition : Bool) :
    (textIf condition text).head?.all p = true := by
  cases condition
  · rfl
  · exact opens

theorem any_getLast?_append {p : Char → Bool} (first : List Char) {second : List Char}
    (closes : second.getLast?.any p = true) : (first ++ second).getLast?.any p = true := by
  rcases List.eq_nil_or_concat second with rfl | ⟨front, c, rfl⟩
  · cases closes
  · rw [List.concat_eq_append, List.getLast?_concat] at closes
    rw [List.concat_eq_append, ← List.append_assoc, List.getLast?_concat]
    exact closes

end Text

theorem DocComment.all_head?_render (content : List Char) :
    (render content).head?.all isInk = true := by
  rw [render]
  split
  · rfl
  split
  · rfl
  · rfl

theorem Visibility.all_head?_lead (visibility : Option Visibility) :
    (lead visibility).head?.all isInk = true := by
  rcases visibility with _ | _ | _ | _ <;> decide

theorem Declaration.sturdy_traitClause (shortener : Shortener) (layout : Layout)
    (use : TypeName × List Word) : Sturdy (traitClause shortener layout use) := by
  rw [traitClause]
  split
  · exact ⟨rfl, any_getLast?_append _ rfl⟩
  · exact ⟨rfl, any_getLast?_append _ rfl⟩

theorem Constant.sturdy_render (layout : Layout) (constant : Constant) :
    Sturdy (constant.render layout) where
  opens := by
    rw [render]
    simp only [List.append_assoc]
    refine any_head?_append (DocComment.all_head?_render _) ?_
    exact any_head?_append (Visibility.all_head?_lead _) rfl
  closes := any_getLast?_append _ rfl

theorem Property.sturdy_render (layout : Layout) (property : Property) :
    Sturdy (property.render layout) where
  opens := by
    rw [render]
    simp only [List.append_assoc]
    refine any_head?_append (DocComment.all_head?_render _) (any_head?_append_left ?_ _)
    cases property.visibility.getD .publicAccess <;> rfl
  closes := any_getLast?_append _ rfl

theorem Method.any_head?_signature (shortener : Shortener) (layout : Layout)
    (method : Method Parameter) : (method.signature shortener layout).head?.any isInk = true := by
  rw [signature, modifiers]
  simp only [List.append_assoc]
  refine any_head?_append (DocComment.all_head?_render _) ?_
  refine any_head?_append (all_head?_textIf rfl _) ?_
  refine any_head?_append (all_head?_textIf rfl _) ?_
  refine any_head?_append (Visibility.all_head?_lead _) ?_
  exact any_head?_append (all_head?_textIf rfl _) rfl

theorem Method.sturdy_render (shortener : Shortener) (layout : Layout)
    (method : Method Parameter) : Sturdy (method.render shortener layout) where
  opens := by
    have signature := method.any_head?_signature shortener layout
    rw [render]
    split
    · rw [List.append_assoc, List.append_assoc]
      exact any_head?_append_left signature _
    · exact any_head?_append_left signature _
  closes := by
    rw [render]
    split
    · exact any_getLast?_append _ rfl
    · exact any_getLast?_append _ rfl

namespace Declaration

variable (d : PlainDeclaration) (shortener : Shortener) (layout : Layout)

/-- Every member keeps its ends. -/
theorem sturdy_fragments :
    ∀ group ∈ d.fragmentGroups shortener layout, ∀ text ∈ group.2, Sturdy text := by
  intro group member text inside
  simp only [fragmentGroups, List.mem_cons, List.not_mem_nil, or_false] at member
  rcases member with rfl | rfl | rfl | rfl
  · obtain ⟨use, _, rfl⟩ := List.mem_map.1 inside
    exact sturdy_traitClause shortener layout use
  · obtain ⟨constant, _, rfl⟩ := List.mem_map.1 inside
    exact constant.sturdy_render layout
  · obtain ⟨property, _, rfl⟩ := List.mem_map.1 inside
    exact property.sturdy_render layout
  · obtain ⟨method, _, rfl⟩ := List.mem_map.1 inside
    exact method.sturdy_render shortener layout

/-- The body is its members, laid out. -/
theorem body_eq : d.body shortener layout = laidOut (d.fragments shortener layout) := by
  have distinct : (d.fragmentGroups shortener layout).Pairwise (·.1 ≠ ·.1) := by
    simp [fragmentGroups]
  rw [body, groups_eq, fragments]
  by_cases none : pieces (d.fragmentGroups shortener layout) = []
  · rw [none, joinGroups_separated_of_nil none]
    rfl
  · have written : ∀ group ∈ d.fragmentGroups shortener layout, ∀ text ∈ group.2, text ≠ [] := by
      intro group member text inside
      exact (d.sturdy_fragments shortener layout group member text inside).ne_nil
    obtain ⟨text, some, joins, lays⟩ := exists_joinGroups_separated written distinct none []
    rw [joins, List.nil_append, if_neg (by simpa using some), lays]

/-- The text of a declaration put together from its parts, each indented and normalized by
itself: the comment with the head, and the members. -/
def composed : List Char :=
  normalize (d.commentText ++ d.header shortener) ++ ['\n'] ++
    laidOut ((d.fragments shortener layout).map fun piece =>
      (piece.1, normalize (indent layout 1 piece.2))) ++ ['}']

/-- Indenting and normalizing a whole declaration does the same as doing so part by part. -/
theorem render_eq_composed (blank : layout.unit.all isPad = true) :
    d.render shortener layout =
      d.composed shortener layout ++ if d.name.isSome then ['\n'] else [] := by
  have sturdy : ∀ piece ∈ d.fragments shortener layout, Sturdy piece.2 := by
    intro piece member
    obtain ⟨group, own, inside⟩ := List.mem_flatMap.1 member
    obtain ⟨text, written, rfl⟩ := List.mem_map.1 inside
    exact d.sturdy_fragments shortener layout group own text written
  rw [render_eq, body_eq, settled_laidOut blank sturdy, composed]
  simp only [List.append_assoc, List.cons_append, List.nil_append]

end Declaration

namespace Session

/-- In every session that can be reached, every declaration is written as its comment and head, a
line feed, every member indented and normalized by itself, in the order of the groups and with
their blank lines, and a closing brace; a line feed ends it just when it has a name. -/
theorem Reachable.renderWith_eq_composed {session : Session} (reachable : session.Reachable)
    (h : Handle .classType) (shortener : Option Shortener) {layout : Layout}
    (blank : layout.unit.all isPad = true) :
    (Op.renderWith (.classType h) shortener layout).run session.store =
      .ok (.text (String.ofList
        ((session.store.plain h).composed (shortener.getD (session.store.ownShortener h)) layout ++
          if (session.store.plain h).name.isSome then ['\n'] else []))) session.store := by
  obtain ⟨text, read⟩ := Op.exists_classComment reachable.commented h
  rw [Op.run_renderWith_of_ok read, Store.renderClass, Declaration.render_eq_composed _ _ _ blank]

/-- A session with a class of a constant, two properties and a method. -/
def staffed : Session :=
  start.after
    [⟨.newClass (.atom (.word (.text "Staff"))) none, some "staff", .prompt⟩,
      ⟨.ask "staff" (some .addMethod) [.atom (.word (.text "hire"))], none, .prompt⟩,
      ⟨.ask "staff" (some .addProperty) [.atom (.word (.text "lead"))], none, .prompt⟩,
      ⟨.ask "staff" (some .addConstant) [.atom (.word (.text "SIZE")), .atom (.int 3)], none,
        .prompt⟩,
      ⟨.ask "staff" (some .addProperty) [.atom (.word (.text "seats"))], none, .prompt⟩]

/-- The text of the class: its groups in their order, whatever the order of the steps was. -/
def staffedText : String :=
  "class Staff\n\x7b\n\tconst SIZE = 3;\n\n\tpublic $lead;\n\n\tpublic $seats;\n\n\n" ++
    "\tpublic function hire()\n\t\x7b\n\t\x7d\n\x7d\n"

theorem renderWith_staffed :
    (Op.renderWith (.classType ⟨0⟩) none .standard).run staffed.store =
      .ok (.text staffedText) staffed.store := by
  have reachable : staffed.Reachable := Reachable.start.after (by decide)
  have blank : Layout.standard.unit.all isPad = true := by decide
  have text : (staffed.store.plain ⟨0⟩).composed
      ((none : Option Shortener).getD (staffed.store.ownShortener ⟨0⟩)) .standard ++
        (if (staffed.store.plain ⟨0⟩).name.isSome then ['\n'] else []) = staffedText.toList := by
    decide +kernel
  rw [reachable.renderWith_eq_composed ⟨0⟩ none blank, text, String.ofList_toList]

end Session

end PhpDecl
