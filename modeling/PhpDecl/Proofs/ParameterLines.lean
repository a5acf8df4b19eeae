import PhpDecl.Proofs.ArrayLines
import PhpDecl.Proofs.ParameterLists

/-!
# The lines of parameter lists

A list that is wrapped has every parameter on a line of its own, one unit deep. But its defaults
are written as if they stood outside of it, so that the lines of an array in a default lack the
unit of the list. So the lines are indented by nesting when no default has several of them
(`Method.indentedByNesting_iff`), and otherwise they are but for the parenthesis, which counts
outside the defaults only (`Parameter.listDepth`).
-/

namespace PhpDecl

open Text

namespace Parameter

/-- How many units go with a number of open brackets. Inside a default, where another one is open
than the parenthesis of the list, the parenthesis does not count. -/
def listDepth (opened : Nat) : Nat := if opened ≤ 1 then opened else opened - 1

theorem listDepth_of_inside (n : Nat) : listDepth (1 + 1 + n) = 0 + 1 + n := by
  rw [listDepth, if_neg (by omega)]
  omega

/-- The type of a parameter is written on one line, starts in ink and closes what it opens, and
there is no code in the default. -/
structure Neat (shortener : Shortener) (parameter : Parameter) : Prop where
  inline : '\n' ∉ parameter.hint shortener
  balanced : Brackets.every.Balanced (parameter.hint shortener)
  starts : ∀ c, (parameter.hint shortener).head? = some c → isPad c = false
  codeless : parameter.hasDefaultValue = true → parameter.defaultValue.literal.Codeless

variable {shortener : Shortener} {layout : Layout} {variadic : Bool} {parameter : Parameter}
  {unit : List Char} {depth : Nat → Nat} {n : Nat}

/-! ## Types -/

/-- A character that types are made of: it is not blank, starts no string and is no bracket. -/
def isTypeChar (c : Char) : Bool :=
  !(['\'', '"', '[', ']', '(', ')', ' ', '\t', '\n'].contains c)

theorem all_isTypeChar_shortenType (plain : shortener.IsPlain) {type : String}
    (chars : type.toList.all isTypeChar = true) :
    (shortener.shortenType type).all isTypeChar = true := by
  rw [Shortener.shortenType]
  split
  · exact chars
  · rcases plain with rfl | ⟨ns, rfl⟩
    · exact chars
    · rw [Shortener.ofNamespace, Word.ofChars, Word.shown, String.toList_ofList, List.all_eq_true]
      intro c member
      rcases ns.mem_shorten member with inside | rfl | rest
      · exact List.all_eq_true.1 chars c inside
      · decide
      · rw [isTypeChar, Brackets.contains_of_class (p := Name.isRest) (by decide) rest]
        rfl

/-- A parameter without code is neat when its type, if it has one, is made of such characters and
something is left of it. -/
theorem neat_of_types (plain : shortener.IsPlain)
    (types : ∀ type, parameter.typeHint = some type →
      type.toList.all isTypeChar = true ∧ shortener.shortenType type ≠ [])
    (codeless : parameter.hasDefaultValue = true → parameter.defaultValue.literal.Codeless) :
    parameter.Neat shortener := by
  obtain ⟨inked, inked_all, spaced⟩ : ∃ inked, inked.all isTypeChar = true ∧
      (parameter.hint shortener = [] ∨ inked ≠ [] ∧ parameter.hint shortener = inked ++ [' ']) := by
    rw [hint]
    split
    · exact ⟨[], rfl, .inl rfl⟩
    · exact ⟨[], rfl, .inl rfl⟩
    next type _ given =>
      obtain ⟨chars, some⟩ := types type given
      refine ⟨_, ?_, .inr ⟨?_, rfl⟩⟩
      · have mark (shown : Bool) : (textIf shown "?").all isTypeChar = true := by
          cases shown <;> decide
        rw [List.all_append, mark, all_isTypeChar_shortenType plain chars]
        rfl
      · exact List.append_ne_nil_of_right_ne_nil _ some
  have each : ∀ c ∈ inked, Brackets.isNeutral c = true ∧ isPad c = false ∧ c ≠ '\n' := by
    intro c member
    have own := List.all_eq_true.1 inked_all c member
    simp only [isTypeChar, List.contains_cons, List.contains_nil, Bool.or_false, Bool.not_eq_true',
      Bool.or_eq_false_iff, beq_eq_false_iff_ne] at own
    simp [Brackets.isNeutral, isPad, own]
  have neutral : (inked ++ [' ']).all Brackets.isNeutral = true := by
    rw [List.all_append, List.all_eq_true.2 fun c member => (each c member).1]
    decide
  rcases spaced with none | ⟨some, spaced⟩
  · exact ⟨by simp [none], by rw [none]; exact fun n => rfl, by simp [none], codeless⟩
  · refine ⟨?_, ?_, ?_, codeless⟩
    · rw [spaced, List.mem_append, not_or]
      exact ⟨fun member => (each _ member).2.2 rfl, by decide⟩
    · rw [spaced]
      exact Brackets.balanced_of_neutral neutral
    · intro c head
      obtain ⟨first, rest, rfl⟩ := List.exists_cons_of_ne_nil some
      rw [spaced, List.cons_append, List.head?_cons, Option.some.injEq] at head
      exact head ▸ (each first List.mem_cons_self).2.1

/-! ## Parameters -/

theorem balanced_lead (variadic : Bool) (neat : parameter.Neat shortener) :
    Brackets.every.Balanced (parameter.lead shortener variadic) := by
  have reference : Brackets.every.Balanced (textIf parameter.reference "&") := by
    cases parameter.reference <;> exact Brackets.balanced_of_neutral (by decide)
  have dots : Brackets.every.Balanced (textIf variadic "...") := by
    cases variadic <;> exact Brackets.balanced_of_neutral (by decide)
  have name : Brackets.every.Balanced ('$' :: parameter.name.chars) := by
    refine Brackets.balanced_of_neutral (List.all_eq_true.2 fun c member => ?_)
    rcases List.mem_cons.1 member with rfl | inName
    · decide
    · exact Brackets.isNeutral_of_class (p := Name.isRest) (by decide)
        (Name.isRest_of_mem parameter.name.valid inName)
  exact ((neat.balanced.append reference).append dots).append name

theorem laidOut_lead (neat : parameter.Neat shortener) :
    Literal.LaidOut .every unit depth n (parameter.lead shortener variadic) := by
  have inline := feed_not_mem_lead variadic neat.inline
  obtain ⟨c, rest, same, ink⟩ : ∃ c rest, parameter.lead shortener variadic = c :: rest ∧
      isPad c = false := by
    rw [lead]
    cases hinted : parameter.hint shortener with
    | nil => cases parameter.reference <;> cases variadic <;> exact ⟨_, _, rfl, rfl⟩
    | cons c rest => exact ⟨c, _, rfl, neat.starts c (by rw [hinted]; rfl)⟩
  refine Literal.laidOut_of_inline ⟨c, rest, same, ink, ?_⟩ (balanced_lead variadic neat) inline
  rintro rfl
  exact inline (same ▸ .head _)

/-- Behind the parenthesis of the list, a parameter lays out its lines as if there were none. -/
theorem laidOut_render (blank : layout.unit.all isPad = true) (neat : parameter.Neat shortener)
    (variadic : Bool) : Literal.LaidOut .every layout.unit listDepth 1
      (parameter.render shortener layout variadic) := by
  rcases parameter.render_cases shortener layout variadic with same | ⟨given, same⟩
  · rw [same]
    exact laidOut_lead neat
  · rw [same, ← List.append_assoc]
    exact (laidOut_lead neat).append (by decide) (Brackets.balanced_of_neutral (by decide))
      (Literal.laidOut_textAt blank (neat.codeless given) listDepth_of_inside)

/-- A parameter that is written on several lines has a line feed behind the bracket that its
default starts with. -/
theorem exists_feed_of_mem_render (neat : parameter.Neat shortener)
    (feed : '\n' ∈ parameter.render shortener layout variadic) :
    ∃ rest, parameter.render shortener layout variadic =
      parameter.lead shortener variadic ++ " = [".toList ++ '\n' :: rest := by
  obtain ⟨given, inDefault, same⟩ := feed_mem_default neat.inline feed
  obtain ⟨texts, -, -, wrapped, -⟩ :=
    Literal.textAt_of_feed (neat.codeless given).feedless inDefault
  rw [same, Literal.text, wrapped, Literal.onLines_eq, Literal.linesText]
  exact ⟨_, by simp only [List.append_assoc]; rfl⟩

/-! ## Lists -/

/-- The lines of a wrapped list behind its parenthesis, the last of which is the closing one. -/
theorem indentsFrom_joined (blank : unit.all isPad = true) (own : depth 1 = 1)
    {parts : List (List Char)} (some : parts ≠ [])
    (each : ∀ part ∈ parts, Literal.LaidOut .every unit depth 1 part) :
    Brackets.every.IndentsFrom unit depth 1
      ('\n' :: (unit ++ (joined ([',', '\n'] ++ unit) parts ++ ['\n', ')']))) := by
  induction parts with
  | nil => exact absurd rfl some
  | cons part rest ih =>
      rw [List.forall_mem_cons] at each
      obtain ⟨laidOut, others⟩ := each
      obtain ⟨c, more, rfl, ink, inline⟩ := laidOut.starts
      have first {behind : List Char} (indents : Brackets.every.IndentsFrom unit depth 1 behind) :
          Brackets.every.IndentsFrom unit depth 1 ('\n' :: (unit ++ (c :: more ++ behind))) := by
        have feed := Brackets.IndentsFrom.feed blank ink inline
          (laidOut.indents.append (laidOut.balanced 1) indents)
        rw [laidOut.balanced.closes_head, own] at feed
        simpa using feed
      cases rest with
      | nil =>
          have closing : Brackets.every.IndentsFrom unit depth 1 ('\n' ::
              ((List.replicate (depth 1 - (Brackets.every.closes ')').toNat) unit).flatten ++
                [')'])) :=
            .feed blank rfl (by decide) (Brackets.indentsFrom_of_inline (by decide))
          rw [own] at closing
          exact first closing
      | cons second others' =>
          have comma : Brackets.every.IndentsFrom unit depth 1 [','] :=
            Brackets.indentsFrom_of_inline (by decide)
          have neutral : Brackets.every.Balanced [','] := Brackets.balanced_of_neutral (by decide)
          have behind := comma.append (neutral 1) (ih (List.cons_ne_nil _ _) others)
          rw [joined_cons_of_ne_nil _ _ (List.cons_ne_nil _ _)]
          have line := first behind
          simpa only [List.append_assoc, List.cons_append, List.nil_append] using line

theorem indentsFrom_onLines (blank : layout.unit.all isPad = true) (own : depth 1 = 1)
    {parts : List (List Char)} (some : parts ≠ [])
    (each : ∀ part ∈ parts, Literal.LaidOut .every layout.unit depth 1 part) :
    Brackets.every.IndentsFrom layout.unit depth 0 (onLines layout parts) := by
  have opening : Brackets.every.IndentsFrom layout.unit depth 0 ['('] :=
    Brackets.indentsFrom_of_inline (by decide)
  have whole := opening.append (m := 1) rfl (indentsFrom_joined blank own some each)
  simpa only [onLines, List.append_assoc, List.cons_append, List.nil_append] using whole

/-- In front of the line feed in one of the parameters of a wrapped list, the parenthesis and the
bracket of its default are open. -/
theorem scan_onLines (blank : layout.unit.all isPad = true) {front : List (List Char)}
    (each : ∀ part ∈ front, Brackets.every.Balanced part) (neat : parameter.Neat shortener)
    (variadic : Bool) :
    Brackets.every.scan ⟨.code, 0⟩ ('(' :: ('\n' :: layout.unit ++
        front.flatMap (· ++ ([',', '\n'] ++ layout.unit)) ++ parameter.lead shortener variadic ++
          " = ".toList) ++ ['[']) = ⟨.code, 2⟩ := by
  have pads : Brackets.every.Balanced layout.unit := Brackets.balanced_of_all_isPad blank
  have feed : Brackets.every.Balanced ['\n'] := Brackets.balanced_of_neutral (by decide)
  have margin : Brackets.every.Balanced ('\n' :: layout.unit) := feed.append pads
  have separator : Brackets.every.Balanced ([',', '\n'] ++ layout.unit) :=
    (Brackets.balanced_of_neutral (by decide)).append pads
  have parts := Literal.balanced_flatMap fun part listed => (each part listed).append separator
  have equals : Brackets.every.Balanced " = ".toList := Brackets.balanced_of_neutral (by decide)
  have inside := ((margin.append parts).append (balanced_lead variadic neat)).append equals
  rw [List.cons_append, Brackets.scan_cons, Brackets.scan_append]
  change Brackets.every.scan (Brackets.every.scan ⟨.code, 1⟩ _) _ = _
  rw [inside]
  rfl

end Parameter

namespace Method

variable {shortener : Shortener} {layout : Layout} {method : Method Parameter} {depth : Nat → Nat}

/-- Every line of the parameter list behind the first one starts with as many units as brackets,
round or square, are open in front of it, one fewer where a closing one comes next, and goes on
with neither a space nor a tab. -/
def IndentedByNesting (shortener : Shortener) (layout : Layout) (method : Method Parameter) :
    Prop :=
  ∀ front line back, lines (method.renderParameters shortener layout) = front ++ line :: back →
    front ≠ [] → Brackets.every.StartsLine layout.unit
      (Brackets.every.openBehind (front.flatMap (· ++ ['\n']))) line

/-- There are parameters, or the list without any fits on a line. -/
def Filled (layout : Layout) (method : Method Parameter) : Prop :=
  method.parameters.values = [] → 0 ≤ layout.wrapLength

theorem parameterTexts_ne_nil (filled : method.Filled layout)
    (long : method.Overlong shortener layout) : method.parameterTexts shortener layout ≠ [] := by
  intro none
  unfold Overlong at long
  rw [none] at long
  have empty : method.parameters.values = [] := by
    rw [parameterTexts] at none
    cases parameters : method.parameters.values with
    | nil => rfl
    | cons parameter rest =>
        rw [parameters] at none
        cases rest <;> cases none
  have short := filled empty
  simp only [joined, List.length_nil] at long
  omega

section

variable (neat : ∀ parameter ∈ method.parameters.values, parameter.Neat shortener)
include neat

theorem feed_not_mem_onOneLine_of_neat (short : ¬method.Overlong shortener layout) :
    '\n' ∉ Parameter.onOneLine (method.parameterTexts shortener layout) :=
  feed_not_mem_onOneLine (fun parameter listed => (neat parameter listed).inline)
    (fun parameter listed given => ((neat parameter listed).codeless given).feedless) short

theorem laidOut_parameterTexts (blank : layout.unit.all isPad = true) :
    ∀ part ∈ method.parameterTexts shortener layout,
      Literal.LaidOut .every layout.unit Parameter.listDepth 1 part := by
  intro part member
  obtain ⟨parameter, listed, dots, rfl⟩ := Parameter.exists_of_mem_renderAll member
  exact Parameter.laidOut_render blank (neat parameter listed) dots

/-- A list lays out its lines when its parameters do. -/
theorem indentsFrom_renderParameters (blank : layout.unit.all isPad = true) (own : depth 1 = 1)
    (filled : method.Filled layout)
    (each : ∀ part ∈ method.parameterTexts shortener layout,
      Literal.LaidOut .every layout.unit depth 1 part) :
    Brackets.every.IndentsFrom layout.unit depth 0 (method.renderParameters shortener layout) := by
  rw [renderParameters_eq]
  split
  next long =>
    exact Parameter.indentsFrom_onLines blank own (parameterTexts_ne_nil filled long) each
  next short => exact Brackets.indentsFrom_of_inline (feed_not_mem_onOneLine_of_neat neat short)

/-- Where a parameter is written on several lines, the list has one in front of which the
parenthesis and another bracket are open. -/
theorem exists_feed_inside (blank : layout.unit.all isPad = true) {part : List Char}
    (listed : part ∈ method.parameterTexts shortener layout) (feed : '\n' ∈ part) :
    ∃ before after, method.renderParameters shortener layout = before ++ '\n' :: after ∧
      Brackets.every.scan ⟨.code, 0⟩ before = ⟨.code, 2⟩ := by
  have long : method.Overlong shortener layout := by
    by_contra short
    have flat := feed_not_mem_onOneLine_of_neat neat short
    have comma : '\n' ∉ [',', ' '] := by decide
    have inside := (Literal.feed_mem_joined comma _).2 ⟨part, listed, feed⟩
    exact flat (by simp [Parameter.onOneLine, inside])
  have balanced := fun part listed => (laidOut_parameterTexts neat blank part listed).balanced
  obtain ⟨parameter, member, dots, rfl⟩ := Parameter.exists_of_mem_renderAll listed
  have own := neat parameter member
  obtain ⟨rest, same⟩ := Parameter.exists_feed_of_mem_render own feed
  obtain ⟨front, back, parts⟩ := List.append_of_mem listed
  rw [parts] at balanced
  have inFront := fun part listed => balanced part (List.mem_append_left _ listed)
  have scans := Parameter.scan_onLines blank inFront own dots
  obtain ⟨after, split⟩ := exists_joined_cons ([',', '\n'] ++ layout.unit)
    (parameter.render shortener layout dots) back
  refine ⟨_, rest ++ after ++ ['\n', ')'], ?_, scans⟩
  have equals : " = [".toList = " = ".toList ++ ['['] := rfl
  rw [renderParameters_eq, if_pos long, Parameter.onLines, parts, joined_append_cons, split, same,
    equals]
  simp only [List.append_assoc, List.cons_append, List.nil_append]

end

/-- An empty list that is wrapped has a line of nothing but the unit. -/
theorem filled_of_indentsFrom (blank : layout.unit.all isPad = true)
    (indents : Brackets.every.IndentsFrom layout.unit depth 0
      (method.renderParameters shortener layout)) : method.Filled layout := by
  intro empty
  by_contra negative
  have none : method.parameterTexts shortener layout = [] := by
    rw [parameterTexts, empty, Parameter.renderAll]
  have long : method.Overlong shortener layout := by
    unfold Overlong
    rw [none]
    exact Int.not_le.1 negative
  rw [renderParameters_eq, if_pos long, none] at indents
  have starts := indents ['('] (layout.unit ++ ['\n', ')']) (by simp [Parameter.onLines, joined])
  have unit := (starts.of_append blank (.inr rfl)).all_isPad
  rw [blank] at unit
  cases unit

/-- The lines of a parameter list are indented by nesting just when it is not an empty list that is
wrapped, and nothing is indented or every parameter is written on one line. In general the
parenthesis of the list counts outside the defaults only. -/
theorem indentedByNesting_iff (blank : layout.unit.all isPad = true)
    (neat : ∀ parameter ∈ method.parameters.values, parameter.Neat shortener) :
    (method.IndentedByNesting shortener layout ↔ method.Filled layout ∧
      (layout.unit = [] ∨ ∀ part ∈ method.parameterTexts shortener layout, '\n' ∉ part)) ∧
    (method.Filled layout → ∀ front line back,
      lines (method.renderParameters shortener layout) = front ++ line :: back → front ≠ [] →
        Brackets.every.StartsLine layout.unit (Parameter.listDepth
          (Brackets.every.openBehind (front.flatMap (· ++ ['\n'])))) line) := by
  have law : method.IndentedByNesting shortener layout ↔
      Brackets.every.IndentsFrom layout.unit id 0 (method.renderParameters shortener layout) := by
    rw [Brackets.indentsFrom_iff_lines blank]
    rfl
  have laidOut := laidOut_parameterTexts neat blank
  have general (filled : method.Filled layout) : Brackets.every.IndentsFrom layout.unit
      Parameter.listDepth 0 (method.renderParameters shortener layout) :=
    indentsFrom_renderParameters neat blank rfl filled laidOut
  refine ⟨law.trans ⟨fun indents => ?_, ?_⟩, fun filled =>
    (Brackets.indentsFrom_iff_lines blank).1 (general filled)⟩
  · have filled := filled_of_indentsFrom blank indents
    refine ⟨filled, ?_⟩
    by_cases none : layout.unit = []
    · exact .inl none
    · refine .inr fun part listed feed => ?_
      -- The line inside the default would have to start with two units, and with one.
      obtain ⟨before, after, split, opened⟩ := exists_feed_inside neat blank listed feed
      have two := indents before after split
      have one := general filled before after split
      rw [opened] at one two
      obtain ⟨c, same⟩ := two.units_eq blank none one
      cases closes : Brackets.every.closes c <;> simp [closes, Parameter.listDepth] at same
  · rintro ⟨filled, none | inline⟩
    · intro before after split
      have starts := general filled before after split
      rw [none] at starts ⊢
      exact starts.of_nil _
    · refine indentsFrom_renderParameters neat blank rfl filled fun part listed => ?_
      exact { laidOut part listed with
        indents := Brackets.indentsFrom_of_inline (inline part listed) }

/-- A parameter with a list of two words for a default. -/
def items : Parameter :=
  { Parameter.named ⟨"items", by decide⟩ with
    defaultValue :=
      ⟨.list [.atom (.word (.text "abc")), .atom (.word (.text "def"))], by decide, by decide⟩
    hasDefaultValue := true }

def storing : Method Parameter :=
  { (Method.named ⟨"store", by decide⟩ : Method Parameter) with
    parameters := .ofList [("items", items)] }

/-- Where lines of 5 characters are too long, the words stand behind one tab in two brackets. -/
theorem not_indentedByNesting_storing :
    (∀ parameter ∈ storing.parameters.values,
      parameter.typeHint = none ∧ parameter.defaultValue.literal.Codeless) ∧
    (⟨"\t", 5⟩ : Layout).unit.all isPad = true ∧
    storing.renderParameters .full ⟨"\t", 5⟩ =
      "(\n\t$items = [\n\t'abc',\n\t'def',\n]\n)".toList ∧
    ¬storing.IndentedByNesting .full ⟨"\t", 5⟩ := by
  have values : storing.parameters.values = [items] := rfl
  refine ⟨?_, by decide, by decide +kernel, fun law => ?_⟩
  · rw [values, List.forall_mem_singleton]
    exact ⟨rfl, by decide⟩
  · have two := law ["(".toList, "\t$items = [".toList] "\t'abc',".toList
      ["\t'def',".toList, "]".toList, ")".toList] (by decide +kernel) (by decide)
    have one : Brackets.every.StartsLine ['\t'] 1 "\t'abc',".toList :=
      ⟨'\'', "abc',".toList, by decide, by decide, by decide⟩
    obtain ⟨c, same⟩ := two.units_eq (by decide) (by decide) one
    have opened : Brackets.every.openBehind
        (["(".toList, "\t$items = [".toList].flatMap (· ++ ['\n'])) = 2 := by decide
    rw [opened] at same
    cases closes : Brackets.every.closes c <;> simp [closes] at same

/-- The lines of two parameters that fit on a line each are indented by nesting. The words of a
default in a list are not: the parenthesis does not count. -/
theorem indentedByNesting_listening :
    listening.IndentedByNesting (.ofNamespace net) ⟨"\t", 20⟩ ∧
      ¬storing.IndentedByNesting .full ⟨"  ", 5⟩ ∧
      Brackets.every.StartsLine [' ', ' '] (Parameter.listDepth 2) "  'abc',".toList := by
  have plain : (Shortener.ofNamespace net).IsPlain := .inr ⟨net, rfl⟩
  have values : listening.parameters.values = [server, ports] := rfl
  have typed : ∀ parameter ∈ listening.parameters.values,
      parameter.Neat (.ofNamespace net) := by
    rw [values, List.forall_mem_cons, List.forall_mem_singleton]
    refine ⟨Parameter.neat_of_types plain ?_ nofun,
      Parameter.neat_of_types plain nofun fun _ => ?_⟩
    · intro type given
      cases given
      decide +kernel
    · decide
  have untyped : ∀ parameter ∈ storing.parameters.values, parameter.Neat .full := by
    have values : storing.parameters.values = [items] := rfl
    rw [values, List.forall_mem_singleton]
    exact Parameter.neat_of_types (.inl rfl) nofun fun _ => by decide
  have tabs : (⟨"\t", 20⟩ : Layout).unit.all isPad = true := by decide
  have spaces : (⟨"  ", 5⟩ : Layout).unit.all isPad = true := by decide
  obtain ⟨narrow, -⟩ := indentedByNesting_iff tabs typed
  obtain ⟨tight, general⟩ := indentedByNesting_iff spaces untyped
  refine ⟨narrow.2 ⟨nofun, .inr (by decide +kernel)⟩, ?_, ?_⟩
  · rw [tight]
    rintro ⟨-, none | inline⟩
    · cases none
    · revert inline
      decide +kernel
  · exact general nofun ["(".toList, "  $items = [".toList] "  'abc',".toList
      ["  'def',".toList, "]".toList, ")".toList] (by decide +kernel) (by decide)

end Method

end PhpDecl
