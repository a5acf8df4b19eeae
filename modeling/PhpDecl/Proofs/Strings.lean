import PhpDecl.Proofs.Literals
import PhpDecl.Proofs.Placement
import PhpDecl.Session

/-!
# Strings in declarations

A string that a member of a declaration keeps stands in the text of the declaration where the
member is declared, as its literal comes out of indenting and normalizing.
-/

namespace PhpDecl

open Text

/-! ## Members -/

namespace DocComment

theorem endsLine_render (content : List Char) : EndsLine (render content) := by
  rw [render]
  split
  · exact .inl rfl
  split
  · exact .inr ⟨_ ++ "\n */".toList, by rw [List.append_assoc]; rfl⟩
  · exact .inr ⟨_ ++ " */".toList, by rw [List.append_assoc _ _ ['\n']]; rfl⟩

/-- A text behind a comment stands there on lines of its own. -/
theorem placed_behind (content rest : List Char) : Placed rest (render content ++ rest) := by
  have own : Placed rest (rest ++ []) := .before rest (.inl rfl)
  rw [List.append_nil] at own
  exact own.after (endsLine_render content)

end DocComment

theorem Visibility.all_isPlain_lead (visibility : Option Visibility) :
    (lead visibility).all isPlain = true := by
  rcases visibility with _ | _ | _ | _ <;> decide

theorem Text.all_isPlain_textIf {text : String} (plain : text.toList.all isPlain = true)
    (condition : Bool) : (textIf condition text).all isPlain = true := by
  cases condition
  · rfl
  · exact plain

theorem Method.all_isPlain_modifiers (method : Method Parameter) :
    method.modifiers.all isPlain = true := by
  rw [modifiers, List.all_append, List.all_append, List.all_append,
    all_isPlain_textIf (by decide), all_isPlain_textIf (by decide),
    all_isPlain_textIf (by decide), Visibility.all_isPlain_lead]
  rfl

theorem Constant.all_isPlain_lead (constant : Constant) :
    (Visibility.lead constant.visibility ++ "const ".toList).all isPlain = true := by
  rw [List.all_append, Visibility.all_isPlain_lead]
  decide

theorem Property.all_isPlain_lead (property : Property) :
    ((property.visibility.getD .publicAccess).keyword.toList ++
      textIf property.static " static" ++ " $".toList).all isPlain = true := by
  cases property.visibility.getD .publicAccess <;> cases property.static <;> decide

theorem Method.all_isPlain_lead (method : Method Parameter) :
    (method.modifiers ++ "function ".toList ++ textIf method.returnReference "&").all isPlain =
      true := by
  rw [List.all_append, List.all_append, method.all_isPlain_modifiers,
    all_isPlain_textIf (by decide)]
  decide

namespace Parameter

variable (shortener : Shortener) (layout : Layout)

theorem renderAll_cons_of_ne_nil (variadic : Bool) (first : Parameter) {rest : List Parameter}
    (some : rest ≠ []) : renderAll shortener layout variadic (first :: rest) =
      first.render shortener layout false :: renderAll shortener layout variadic rest := by
  cases rest with
  | nil => exact absurd rfl some
  | cons => rfl

/-- Each parameter is written in its place; it is variadic only as the last one. -/
theorem exists_renderAll (variadic : Bool) (earlier : List Parameter) (parameter : Parameter)
    (later : List Parameter) : ∃ front back,
      renderAll shortener layout variadic (earlier ++ parameter :: later) =
        front ++ parameter.render shortener layout (variadic && later.isEmpty) :: back := by
  induction earlier with
  | nil =>
      cases later with
      | nil => exact ⟨[], [], by simp [renderAll]⟩
      | cons next others => exact ⟨[], _, by simp [renderAll]; rfl⟩
  | cons first earlier ih =>
      obtain ⟨front, back, same⟩ := ih
      refine ⟨first.render shortener layout false :: front, back, ?_⟩
      rw [List.cons_append, renderAll_cons_of_ne_nil _ _ _ _ (by simp), same, List.cons_append]

/-- The characters that may stand behind a written parameter. -/
def isStop (c : Char) : Bool := c == ',' || c == ')' || c == '\n'

theorem isFirm_of_isStop {stop : Char} (stops : isStop stop = true) : isFirm stop = true := by
  simp only [isStop, Bool.or_eq_true, beq_iff_eq] at stops
  rcases stops with (rfl | rfl) | rfl <;> decide

/-- A written parameter stands in the parentheses of the list, in front of a stop. -/
theorem exists_listText (part : List Char) (front back : List (List Char)) :
    ∃ before stop after, isStop stop = true ∧
      listText layout (front ++ part :: back) = '(' :: (before ++ part ++ stop :: after) := by
  rw [listText]
  split
  · obtain ⟨before, same⟩ := exists_joined ([',', '\n'] ++ layout.unit) part front back
    rw [same]
    split
    · exact ⟨['\n'] ++ layout.unit ++ before, '\n', [')'], rfl, by simp⟩
    · exact ⟨['\n'] ++ layout.unit ++ before, ',', _, rfl, by simp; rfl⟩
  · obtain ⟨before, same⟩ := exists_joined [',', ' '] part front back
    rw [same]
    split
    · exact ⟨before, ')', [], rfl, by simp⟩
    · exact ⟨before, ',', _, rfl, by simp; rfl⟩

end Parameter

theorem Method.exists_render_signature (shortener : Shortener) (layout : Layout)
    (method : Method Parameter) : ∃ body,
      method.render shortener layout = method.signature shortener layout ++ body := by
  rw [render]
  split
  · exact ⟨_, List.append_assoc _ _ ['}'] |>.trans (List.append_assoc ..)⟩
  · exact ⟨_, rfl⟩

/-- In a signature what stands behind the dollar sign of a parameter is settled by itself: behind
the name and the parenthesis, and behind what comes of the parameters before it. -/
theorem exists_settled_signature {margin : List Char} (blank : margin.all isPad = true)
    {lead : List Char} (plain : lead.all isPlain = true) (name : Identifier)
    (between : List Char) : ∃ inside, ∀ rest,
      settled margin true (lead ++ name.chars ++ '(' :: (between ++ '$' :: rest)) =
        margin ++ lead ++ carried margin name.chars ++ '(' ::
          (inside ++ '$' :: settled margin false rest) := by
  have dollar : isLineBreak '$' = false := by decide
  -- The parameters before may be written on lines of their own; the dollar sign keeps them apart.
  obtain ⟨inside, settles⟩ := exists_settled_append (c := '$') (by decide) margin false between
  refine ⟨inside, fun rest => ?_⟩
  have named := settled_named blank true plain name.all_isInline
    (List.all_nil : [].all isPlain = true) (by decide : isFirm '(' = true) (by decide)
    (between ++ '$' :: rest)
  rw [List.append_nil, settles, dollar] at named
  rw [named]
  simp only [List.append_nil, if_true]

def ShallowLiteral.IsString (value : ShallowLiteral) : Prop :=
  ∃ word, value.literal = .atom (.word word)

/-- A string is written as its literal. -/
theorem ShallowLiteral.IsString.exists_text {value : ShallowLiteral} (string : value.IsString)
    (layout : Layout) : ∃ word : Word, value.literal.text layout = Quoted.encode word.chars := by
  obtain ⟨word, same⟩ := string
  refine ⟨word, ?_⟩
  rw [same]
  rfl

/-- The parameter is one of the method that is written with its default. -/
def Method.PrintsDefault (method : Method Parameter) (parameter : Parameter) : Prop :=
  ∃ earlier later, method.parameters.values = earlier ++ parameter :: later ∧
    parameter.hasDefaultValue = true ∧ (method.variadic = true → later ≠ [])

/-- A value assigned to a name, as it comes out of indenting and normalizing. -/
def Layout.assigned (layout : Layout) (name : Identifier) (value : ShallowLiteral) : List Char :=
  carried layout.unit name.chars ++ " = ".toList ++ carried layout.unit (value.literal.text layout)

/-- In the text every string of the declaration stands where its member is declared: a constant
and a property on a line of their own, the default of a parameter in the parentheses behind the
name of its method. -/
structure Declaration.HoldsStrings (d : PlainDeclaration) (layout : Layout) (text : List Char) :
    Prop where
  constants : ∀ {constant}, constant ∈ d.constants.values → constant.value.IsString →
    ∃ before after, text = before ++ '\n' :: (layout.unit ++
      (Visibility.lead constant.visibility ++ "const ".toList) ++
        layout.assigned constant.name constant.value ++ ";\n".toList ++ after)
  properties : ∀ {property}, property ∈ d.properties.values → property.value.IsString →
    ∃ before after, text = before ++ '\n' :: (layout.unit ++
      ((property.visibility.getD .publicAccess).keyword.toList ++
        textIf property.static " static" ++ " $".toList) ++
          layout.assigned property.name property.value ++ ";\n".toList ++ after)
  parameters : ∀ {method parameter}, method ∈ d.methods.values → method.PrintsDefault parameter →
    parameter.defaultValue.IsString → ∃ before between stop after, Parameter.isStop stop = true ∧
      text = before ++ '\n' :: (layout.unit ++
        (method.modifiers ++ "function ".toList ++ textIf method.returnReference "&") ++
          carried layout.unit method.name.chars ++ '(' :: (between ++ '$' ::
            (layout.assigned parameter.name parameter.defaultValue ++ stop :: after)))

namespace Declaration

variable {d : PlainDeclaration} {layout : Layout}

/-- Behind its comment a member stands in the text of the declaration on lines of its own, as it
comes out of indenting and normalizing. -/
theorem exists_render_of_member {shortener : Shortener} {separator behind : List Char}
    {parts : List (List Char)}
    (group : (joined separator parts, behind) ∈ d.groups shortener layout)
    (separates : Separates separator) {comment part : List Char}
    (own : DocComment.render comment ++ part ∈ parts) (some : part.isEmpty = false) :
    ∃ before more after, d.render shortener layout = before ++
      '\n' :: (settled layout.unit true (part ++ '\n' :: more) ++ after) := by
  have whole : (DocComment.render comment ++ part).isEmpty = false := by
    cases part with
    | nil => cases some
    | cons => simp
  have placed := d.placed_memberText shortener layout group separates own whole
  exact d.exists_render shortener layout ((DocComment.placed_behind _ _).trans placed) some

section Groups

variable (d : PlainDeclaration) (shortener : Shortener) (layout : Layout)

theorem traits_mem_groups : (joined ['\n'] (d.traits.entries.map (traitClause shortener layout)),
    ['\n', '\n']) ∈ d.groups shortener layout := .head _

theorem constants_mem_groups : (joined ['\n'] (d.constants.values.map (Constant.render layout)),
    ['\n', '\n']) ∈ d.groups shortener layout := .tail _ (.head _)

theorem properties_mem_groups :
    (joined ['\n', '\n'] (d.properties.values.map (Property.render layout)),
      ['\n', '\n', '\n']) ∈ d.groups shortener layout := .tail _ (.tail _ (.head _))

theorem methods_mem_groups :
    (joined ['\n', '\n', '\n'] (d.methods.values.map (Method.render shortener layout)),
      ['\n']) ∈ d.groups shortener layout := .tail _ (.tail _ (.tail _ (.head _)))

end Groups

/-- An assignment that a member consists of, behind its comment, stands in the text of the
declaration on a line of its own. -/
theorem exists_render_assignment (blank : layout.unit.all isPad = true) {shortener : Shortener}
    {separator behind : List Char} {parts : List (List Char)}
    (group : (joined separator parts, behind) ∈ d.groups shortener layout)
    (separates : Separates separator) (comment : List Char) {lead : List Char}
    (plain : lead.all isPlain = true) {name : Identifier} {value : ShallowLiteral}
    (string : value.IsString) (own : DocComment.render comment ++
        (lead ++ name.chars ++ " = ".toList ++ value.literal.text layout ++ [';']) ∈ parts) :
    ∃ before after, d.render shortener layout = before ++
      '\n' :: (layout.unit ++ lead ++ layout.assigned name value ++ ";\n".toList ++ after) := by
  obtain ⟨word, literal⟩ := string.exists_text layout
  rw [literal] at own
  have inside : isLineBreak ';' = false := by decide
  have feed : isLineBreak '\n' = true := by decide
  obtain ⟨before, more, after, rendered⟩ := exists_render_of_member group separates own (by simp)
  refine ⟨before, settled layout.unit true more ++ after, ?_⟩
  rw [rendered, List.append_assoc, List.singleton_append,
    settled_assignment blank true plain name word.chars (by decide), Layout.assigned, literal,
    inside, settled_cons (by decide), feed]
  simp

theorem exists_render_constant (blank : layout.unit.all isPad = true) (shortener : Shortener)
    {constant : Constant} (member : constant ∈ d.constants.values)
    (string : constant.value.IsString) : ∃ before after, d.render shortener layout = before ++
      '\n' :: (layout.unit ++ (Visibility.lead constant.visibility ++ "const ".toList) ++
        layout.assigned constant.name constant.value ++ ";\n".toList ++ after) := by
  have own := List.mem_map_of_mem member (f := Constant.render layout)
  refine exists_render_assignment blank (d.constants_mem_groups shortener layout)
    (separates_replicate 0) (charsOf constant.comment) constant.all_isPlain_lead string ?_
  simpa only [Constant.render, List.append_assoc] using own

theorem exists_render_property (blank : layout.unit.all isPad = true) (shortener : Shortener)
    {property : Property} (member : property ∈ d.properties.values)
    (string : property.value.IsString) : ∃ before after, d.render shortener layout = before ++
      '\n' :: (layout.unit ++ ((property.visibility.getD .publicAccess).keyword.toList ++
        textIf property.static " static" ++ " $".toList) ++
          layout.assigned property.name property.value ++ ";\n".toList ++ after) := by
  have own := List.mem_map_of_mem member (f := Property.render layout)
  have written : property.value.literal.isNull = false := by
    obtain ⟨word, same⟩ := string
    rw [same]
    rfl
  rw [Property.render, if_neg (Bool.eq_false_iff.1 written)] at own
  refine exists_render_assignment blank (d.properties_mem_groups shortener layout)
    (separates_replicate 1) (charsOf property.comment) property.all_isPlain_lead string ?_
  simpa only [List.append_assoc] using own

/-- A method is written with each of its parameters in its parentheses, and the default behind the
name where there is one to print. -/
theorem exists_render_method (shortener : Shortener) (layout : Layout) {method : Method Parameter}
    {earlier later : List Parameter} {parameter : Parameter}
    (split : method.parameters.values = earlier ++ parameter :: later) :
    ∃ between stop after, Parameter.isStop stop = true ∧ method.render shortener layout =
      DocComment.render (charsOf method.comment ++ ['\n']) ++
        (method.modifiers ++ "function ".toList ++ textIf method.returnReference "&" ++
          method.name.chars ++ '(' :: (between ++ '$' :: (parameter.name.chars ++
            (if parameter.hasDefaultValue && !(method.variadic && later.isEmpty) then
              " = ".toList ++ parameter.defaultValue.literal.text layout
             else []) ++ stop :: after))) := by
  generalize dots : (method.variadic && later.isEmpty) = variadic
  obtain ⟨front, back, parts⟩ :=
    Parameter.exists_renderAll shortener layout method.variadic earlier parameter later
  rw [dots] at parts
  obtain ⟨before, stop, after, stops, list⟩ :=
    Parameter.exists_listText layout (parameter.render shortener layout variadic) front back
  have parentheses : method.renderParameters shortener layout =
      '(' :: (before ++ parameter.render shortener layout variadic ++ stop :: after) := by
    rw [Method.renderParameters, split, parts, list]
  obtain ⟨body, whole⟩ := method.exists_render_signature shortener layout
  refine ⟨before ++ (parameter.hint shortener ++ textIf parameter.reference "&" ++
    textIf variadic "..."), stop, after ++ method.returnText shortener ++ body, stops, ?_⟩
  rw [whole, Method.signature, parentheses, Parameter.render]
  simp only [List.append_assoc, List.cons_append]

/-- In the text of the declaration what stands behind the dollar sign of a parameter is settled by
itself, in the parentheses behind the name of its method. -/
theorem exists_render_of_parameter (blank : layout.unit.all isPad = true) (shortener : Shortener)
    {method : Method Parameter} {earlier later : List Parameter} {parameter : Parameter}
    (member : method ∈ d.methods.values)
    (split : method.parameters.values = earlier ++ parameter :: later) :
    ∃ before between stop rest after, Parameter.isStop stop = true ∧
      d.render shortener layout = before ++ '\n' :: (layout.unit ++
        (method.modifiers ++ "function ".toList ++ textIf method.returnReference "&") ++
          carried layout.unit method.name.chars ++ '(' :: (between ++ '$' ::
            (settled layout.unit false (parameter.name.chars ++
              (if parameter.hasDefaultValue && !(method.variadic && later.isEmpty) then
                " = ".toList ++ parameter.defaultValue.literal.text layout
              else []) ++ stop :: rest) ++ after))) := by
  obtain ⟨between, stop, behind, stops, written⟩ := exists_render_method shortener layout split
  have own := List.mem_map_of_mem member (f := Method.render shortener layout)
  rw [written] at own
  obtain ⟨front, more, back, rendered⟩ := exists_render_of_member
    (d.methods_mem_groups shortener layout) (separates_replicate 2) own (by simp)
  obtain ⟨inside, settles⟩ :=
    exists_settled_signature blank method.all_isPlain_lead method.name between
  refine ⟨front, inside, stop, behind ++ '\n' :: more, back, stops, ?_⟩
  have signature := settles (parameter.name.chars ++
    (if parameter.hasDefaultValue && !(method.variadic && later.isEmpty) then
      " = ".toList ++ parameter.defaultValue.literal.text layout
    else []) ++ stop :: (behind ++ '\n' :: more))
  simp only [List.append_assoc, List.cons_append] at rendered signature ⊢
  rw [rendered, signature]
  simp only [List.append_assoc, List.cons_append]

theorem exists_render_parameter (blank : layout.unit.all isPad = true) (shortener : Shortener)
    {method : Method Parameter} {parameter : Parameter} (member : method ∈ d.methods.values)
    (prints : method.PrintsDefault parameter) (string : parameter.defaultValue.IsString) :
    ∃ before between stop after, Parameter.isStop stop = true ∧
      d.render shortener layout = before ++ '\n' :: (layout.unit ++
        (method.modifiers ++ "function ".toList ++ textIf method.returnReference "&") ++
          carried layout.unit method.name.chars ++ '(' :: (between ++ '$' ::
            (layout.assigned parameter.name parameter.defaultValue ++ stop :: after))) := by
  obtain ⟨earlier, later, split, given, last⟩ := prints
  obtain ⟨word, literal⟩ := string.exists_text layout
  -- A printed default is one of a parameter without dots.
  have shown : (parameter.hasDefaultValue && !(method.variadic && later.isEmpty)) = true := by
    rw [given]
    cases variadic : method.variadic with
    | false => rfl
    | true => simpa using last variadic
  obtain ⟨before, between, stop, rest, after, stops, rendered⟩ :=
    exists_render_of_parameter (d := d) blank shortener member split
  have assignment := settled_assignment blank false (List.all_nil : [].all isPlain = true)
    parameter.name word.chars (Parameter.isFirm_of_isStop stops) rest
  refine ⟨before, between, stop, settled layout.unit (isLineBreak stop) rest ++ after, stops, ?_⟩
  simp only [List.nil_append, Bool.false_eq_true, if_false] at assignment
  rw [if_pos shown, literal, ← List.append_assoc parameter.name.chars, assignment] at rendered
  rw [rendered, Layout.assigned, literal]
  simp only [List.append_assoc, List.cons_append]

/-- The text of a declaration holds every string of it. -/
theorem holdsStrings_render (blank : layout.unit.all isPad = true) (shortener : Shortener) :
    d.HoldsStrings layout (d.render shortener layout) where
  constants := exists_render_constant blank shortener
  properties := exists_render_property blank shortener
  parameters := exists_render_parameter blank shortener

end Declaration

namespace Store

/-- Under every layout that indents with spaces and tabs, the text of a declaration holds every
string of it where its member is declared. A literal stands there as it is written by itself just
when, unless nothing is indented, its text holds no separator; a name just when it holds no stray
control and, unless nothing is indented, no end of a line. -/
theorem holdsStrings_renderClass (store : Store) (h : Handle .classType)
    (shortener : Option Shortener) {layout : Layout} (blank : layout.unit.all isPad = true) :
    (store.plain h).HoldsStrings layout (store.renderClass h shortener layout) ∧
      (∀ word, carried layout.unit ((Literal.atom (.word word)).text layout) =
          (Literal.atom (.word word)).text layout ↔
        layout.unit = [] ∨ ∀ c ∈ word.chars, isSeparator c = false) ∧
      ∀ name : Identifier, carried layout.unit name.chars = name.chars ↔
        ∀ c ∈ name.chars, isStrayControl c = false ∧
          (layout.unit = [] ∨ isLineBreak c = false) :=
  ⟨Declaration.holdsStrings_render blank _, fun word => carried_encode_eq_self_iff blank word.chars,
    fun name => carried_eq_self_iff blank name.chars⟩

end Store

namespace Session

/-- A session with a class of one constant, of which the value holds a line separator. -/
def separated : Session :=
  start.after
    [⟨.newClass (.atom (.word (.text "Page"))) none, some "page", .prompt⟩,
      ⟨.ask "page" (some .addConstant)
        [.atom (.word (.text "RULE")), .atom (.word (.text "a\u2028b"))], none, .prompt⟩]

theorem holdsStrings_separated : Layout.standard.unit.all isPad = true ∧
    ∃ before after, separated.store.renderClass ⟨0⟩ none .standard =
      before ++ "\n\tconst RULE = 'a\u2028\tb';\n".toList ++ after := by
  have blank : Layout.standard.unit.all isPad = true := by decide
  refine ⟨blank, ?_⟩
  let rule := separated.store.constants.get ⟨0⟩
  have member : rule ∈ (separated.store.plain ⟨0⟩).constants.values := by
    have values : (separated.store.plain ⟨0⟩).constants.values = [rule] := by
      with_unfolding_all rfl
    rw [values]
    exact .head _
  have string : rule.value.IsString := ⟨.text "a\u2028b", by with_unfolding_all rfl⟩
  have line : '\n' :: (Layout.standard.unit ++ (Visibility.lead rule.visibility ++
      "const ".toList) ++ Layout.standard.assigned rule.name rule.value ++ ";\n".toList) =
        "\n\tconst RULE = 'a\u2028\tb';\n".toList := by decide +kernel
  obtain ⟨before, after, same⟩ :=
    (separated.store.holdsStrings_renderClass ⟨0⟩ none blank).1.constants member string
  refine ⟨before, after, ?_⟩
  rw [same, ← line]
  simp only [List.append_assoc, List.cons_append]

/-- The margin gets into the literal, so that it does not stand in the text as it is written. -/
theorem separated_cuts_literal :
    ¬("const RULE = ".toList ++ (Literal.atom (.word (.text "a\u2028b"))).text .standard ++
      [';']) <:+: separated.store.renderClass ⟨0⟩ none .standard := by
  decide +kernel

end Session

end PhpDecl
