import PhpDecl.Member.Printer
import PhpDecl.Proofs.Resolution
import PhpDecl.Proofs.Wrapping

/-!
# Where parameter lists are wrapped

A method puts its brace behind a parameter list on the line of that list when it finds a line feed
in it. This tells the lists that were wrapped from the others only if no default brings a line feed
into a list that fits on a line. It does not, for an array that is wrapped is longer than the wrap
length by itself (`Literal.lt_length_of_feed`): a level takes four columns from the wrap length,
but to wrap an array takes more than four characters.
-/

namespace PhpDecl

open Text

/-! ## How long arrays are -/

theorem Text.length_le_joined (separator : List Char) {text : List Char}
    {texts : List (List Char)} (member : text ∈ texts) :
    text.length ≤ (joined separator texts).length := by
  obtain ⟨front, back, rfl⟩ := List.append_of_mem member
  obtain ⟨before, same⟩ := exists_joined separator text front back
  rw [same, List.length_append, List.length_append]
  omega

namespace Literal

theorem length_joined_le_entries (unit margin : List Char) {texts : List (List Char)}
    (some : texts ≠ []) : (joined [',', ' '] texts).length + 2 ≤
      (texts.flatMap fun text => unit ++ text ++ [',', '\n'] ++ margin).length := by
  induction texts with
  | nil => exact absurd rfl some
  | cons text rest ih =>
      cases rest with
      | nil =>
          simp [joined]
          omega
      | cons second others =>
          have rest := ih (List.cons_ne_nil _ _)
          rw [joined_cons_of_ne_nil _ _ (List.cons_ne_nil _ _), List.flatMap_cons]
          simp only [List.length_append, List.length_cons, List.length_nil] at rest ⊢
          omega

/-- Wrapping an array adds more to it than a level takes from the wrap length. -/
theorem length_joined_lt_onLines (layout : Layout) (level : Nat) {texts : List (List Char)}
    (some : texts ≠ []) : (joined [',', ' '] texts).length + columnsPerLevel <
      (onLines layout level texts).length := by
  have entries := length_joined_le_entries layout.unit (layout.margin level) some
  simp only [onLines, columnsPerLevel, List.length_append, List.length_cons, List.length_nil]
    at entries ⊢
  omega

/-- A line feed in the text of an entry stands in its item or in its key, neither of which is
longer than the entry. -/
theorem exists_of_feed_mem_entry {write : Literal → List Char} {literal : Literal}
    {text : List Char} (listed : text ∈ literal.textsBy write) (feed : '\n' ∈ text) :
    ∃ child ∈ literal.parts, '\n' ∈ write child ∧ (write child).length ≤ text.length := by
  rcases mem_textsBy listed with ⟨item, part, rfl⟩ | ⟨key, inFront, item, part, rfl⟩
  · exact ⟨item, part, feed, Nat.le_refl _⟩
  · rw [List.mem_append, List.mem_append] at feed
    simp only [List.length_append]
    rcases feed with (inKey | inArrow) | inItem
    · exact ⟨key, inFront, inKey, by omega⟩
    · exact absurd inArrow (by decide)
    · exact ⟨item, part, inItem, by omega⟩

/-- A text of several lines is that of an array whose entries have a line each. -/
theorem textAt_of_feed {layout : Layout} {level : Nat} {literal : Literal}
    (feedless : literal.Feedless) (feed : '\n' ∈ textAt layout level literal) :
    ∃ texts, texts = literal.textsBy (textAt layout (level + 1)) ∧ texts ≠ [] ∧
      textAt layout level literal = onLines layout level texts ∧
        ('\n' ∈ joined [',', ' '] texts ∨
          layout.wrapLength - level * columnsPerLevel ≤ (joined [',', ' '] texts).length) := by
  refine ⟨_, rfl, ?_⟩
  by_cases compound : ∀ a, literal ≠ .atom a
  · rw [textAt_eq layout level compound] at feed ⊢
    rcases arrayText_cases layout level (literal.textsBy (textAt layout (level + 1))) with
      wrapped | ⟨inline, flat⟩
    · exact wrapped
    · rw [flat, feed_mem_onOneLine] at feed
      exact absurd ((feed_mem_joined (by decide) _).2 feed) inline
  · obtain ⟨a, rfl⟩ := not_forall_not.1 compound
    exact absurd feed (feed_not_mem_atomText (feedless_iff.1 feedless).1)

/-- A text of several lines is longer than what its level leaves of the wrap length. -/
theorem lt_length_of_feed {layout : Layout} {literal : Literal} (feedless : literal.Feedless)
    {level : Nat} (feed : '\n' ∈ textAt layout level literal) :
    layout.wrapLength - level * columnsPerLevel < (textAt layout level literal).length := by
  induction literal using forall_of_parts generalizing level with
  | step literal ih =>
      obtain ⟨texts, entries, some, wrapped, reason⟩ := textAt_of_feed feedless feed
      have longer := length_joined_lt_onLines layout level some
      have cost : 0 < columnsPerLevel := by decide
      rw [wrapped]
      rcases reason with inner | long
      · -- What an item or a key has too much for its level, the array has too.
        obtain ⟨text, listed, innerFeed⟩ := (feed_mem_joined (by decide) _).1 inner
        have line := length_le_joined [',', ' '] listed
        rw [entries] at listed
        obtain ⟨child, part, childFeed, fits⟩ := exists_of_feed_mem_entry listed innerFeed
        have deeper := ih child part ((feedless_iff.1 feedless).2 child part) childFeed
        rw [Int.natCast_add, Int.add_mul] at deeper
        omega
      · omega

end Literal

/-! ## Type hints -/

/-- A short name is made of the characters of the name, of separators and of those of aliases. -/
theorem Namespace.mem_shorten {ns : Namespace} {name : List Char} {c : Char}
    (member : c ∈ ns.shorten name) : c ∈ name ∨ c = Name.separator ∨ Name.isRest c = true := by
  have dropped {n : Nat} (inside : c ∈ (Name.withoutLeading name).drop n) : c ∈ name :=
    (List.dropWhile_sublist _).subset (List.mem_of_mem_drop inside)
  rw [shorten] at member
  split at member
  · exact .inl member
  · rw [shortenBare] at member
    split at member
    next text found =>
      obtain ⟨use, listed, through⟩ := List.mem_filterMap.1 (mem_of_shortest? found)
      unfold throughUse? at through
      split at through
      · cases through
        rcases List.mem_append.1 member with nick | rest
        · exact .inr (.inr (Name.isRest_of_mem use.1.valid nick))
        · exact .inl (dropped rest)
      · cases through
    next =>
      split at member
      · exact .inl (dropped (n := 0) member)
      · split at member
        · exact .inl (dropped member)
        · rcases List.mem_cons.1 member with same | rest
          · exact .inr (.inl same)
          · exact .inl (dropped (n := 0) rest)

/-- Names are written in full, or as a namespace writes them. -/
def Shortener.IsPlain (shortener : Shortener) : Prop :=
  shortener = .full ∨ ∃ ns, shortener = .ofNamespace ns

theorem Shortener.feed_not_mem_shortenType {shortener : Shortener} (plain : shortener.IsPlain)
    {type : String} (inline : '\n' ∉ type.toList) : '\n' ∉ shortener.shortenType type := by
  rw [shortenType]
  split
  · exact inline
  · rcases plain with rfl | ⟨ns, rfl⟩
    · exact inline
    · intro member
      rw [ofNamespace, Word.ofChars, Word.shown, String.toList_ofList] at member
      rcases ns.mem_shorten member with inside | same | rest
      · exact inline inside
      · exact absurd same (by decide)
      · exact absurd rest (by decide)

/-! ## Parameters -/

namespace Parameter

variable {shortener : Shortener} {layout : Layout} {variadic : Bool} {parameter : Parameter}

/-- Neither the type of the parameter nor code in its default holds a line feed. -/
structure Feedless (parameter : Parameter) : Prop where
  typeHint : ∀ type, parameter.typeHint = some type → '\n' ∉ type.toList
  defaultValue : parameter.hasDefaultValue = true → parameter.defaultValue.literal.Feedless

/-- What is written of a parameter in front of its default. -/
def lead (shortener : Shortener) (variadic : Bool) (parameter : Parameter) : List Char :=
  parameter.hint shortener ++ textIf parameter.reference "&" ++ textIf variadic "..." ++
    '$' :: parameter.name.chars

/-- A parameter is written with its default, or without. -/
theorem render_cases (shortener : Shortener) (layout : Layout) (variadic : Bool)
    (parameter : Parameter) :
    parameter.render shortener layout variadic = parameter.lead shortener variadic ∨
      parameter.hasDefaultValue = true ∧ parameter.render shortener layout variadic =
        parameter.lead shortener variadic ++ (" = ".toList ++
          parameter.defaultValue.literal.text layout) := by
  rw [render, lead]
  split
  next shown =>
    rw [Bool.and_eq_true] at shown
    exact .inr ⟨shown.1, rfl⟩
  next => exact .inl (List.append_nil _)

theorem feed_not_mem_hint (plain : shortener.IsPlain) (feedless : parameter.Feedless) :
    '\n' ∉ parameter.hint shortener := by
  rw [hint]
  split
  · simp
  · simp
  · next type _ given =>
    have type := Shortener.feed_not_mem_shortenType plain (feedless.typeHint type given)
    have mark (shown : Bool) : '\n' ∉ textIf shown "?" := by
      cases shown <;> decide
    simp [mark, type]

theorem feed_not_mem_lead (variadic : Bool) (inline : '\n' ∉ parameter.hint shortener) :
    '\n' ∉ parameter.lead shortener variadic := by
  have reference : '\n' ∉ textIf parameter.reference "&" := by
    cases parameter.reference <;> decide
  have dots : '\n' ∉ textIf variadic "..." := by
    cases variadic <;> decide
  have name : '\n' ∉ parameter.name.chars :=
    not_mem_of_all parameter.name.all_isInline (by decide)
  simp [lead, inline, reference, dots, name]

/-- A line feed in a parameter stands in its default. -/
theorem feed_mem_default (inline : '\n' ∉ parameter.hint shortener)
    (feed : '\n' ∈ parameter.render shortener layout variadic) :
    parameter.hasDefaultValue = true ∧ '\n' ∈ parameter.defaultValue.literal.text layout ∧
      parameter.render shortener layout variadic = parameter.lead shortener variadic ++
        (" = ".toList ++ parameter.defaultValue.literal.text layout) := by
  have lead := feed_not_mem_lead variadic inline
  rcases parameter.render_cases shortener layout variadic with same | ⟨given, same⟩
  · rw [same] at feed
    exact absurd feed lead
  · rw [same, List.mem_append, List.mem_append] at feed
    rcases feed with inLead | inEquals | inDefault
    · exact absurd inLead lead
    · exact absurd inEquals (by decide)
    · exact ⟨given, inDefault, same⟩

/-- A parameter that is written on several lines does not fit on a line. -/
theorem lt_length_of_feed (inline : '\n' ∉ parameter.hint shortener)
    (feedless : parameter.hasDefaultValue = true → parameter.defaultValue.literal.Feedless)
    (feed : '\n' ∈ parameter.render shortener layout variadic) :
    layout.wrapLength < (parameter.render shortener layout variadic).length := by
  obtain ⟨given, inDefault, same⟩ := feed_mem_default inline feed
  have long := Literal.lt_length_of_feed (feedless given) inDefault
  rw [same, List.length_append, List.length_append, Literal.text]
  omega

/-- Each text of a list is that of a parameter. -/
theorem exists_of_mem_renderAll {parameters : List Parameter} {part : List Char}
    (member : part ∈ renderAll shortener layout variadic parameters) :
    ∃ parameter ∈ parameters, ∃ dots, part = parameter.render shortener layout dots := by
  fun_induction renderAll shortener layout variadic parameters with
  | case1 => cases member
  | case2 last => exact ⟨last, .head _, variadic, List.mem_singleton.1 member⟩
  | case3 parameter rest _ ih =>
      rcases List.mem_cons.1 member with rfl | later
      · exact ⟨parameter, .head _, false, rfl⟩
      · obtain ⟨other, listed, dots, same⟩ := ih later
        exact ⟨other, .tail _ listed, dots, same⟩

/-- A list in parentheses with every parameter on a line of its own. -/
def onLines (layout : Layout) (parts : List (List Char)) : List Char :=
  ['(', '\n'] ++ layout.unit ++ joined ([',', '\n'] ++ layout.unit) parts ++ ['\n', ')']

/-- A list in parentheses on one line. -/
def onOneLine (parts : List (List Char)) : List Char := '(' :: joined [',', ' '] parts ++ [')']

end Parameter

/-! ## Methods -/

namespace Method

variable {shortener : Shortener} {layout : Layout} {method : Method Parameter}

/-- The parameters as they are written. -/
def parameterTexts (shortener : Shortener) (layout : Layout) (method : Method Parameter) :
    List (List Char) :=
  Parameter.renderAll shortener layout method.variadic method.parameters.values

/-- The parameters, on one line, are longer than the wrap length. -/
def Overlong (shortener : Shortener) (layout : Layout) (method : Method Parameter) : Prop :=
  layout.wrapLength < (joined [',', ' '] (method.parameterTexts shortener layout)).length

instance (shortener : Shortener) (layout : Layout) (method : Method Parameter) :
    Decidable (method.Overlong shortener layout) :=
  inferInstanceAs (Decidable (layout.wrapLength < _))

theorem renderParameters_eq (shortener : Shortener) (layout : Layout)
    (method : Method Parameter) : method.renderParameters shortener layout =
      if method.Overlong shortener layout
      then Parameter.onLines layout (method.parameterTexts shortener layout)
      else Parameter.onOneLine (method.parameterTexts shortener layout) := rfl

/-- Parameters that fit on a line are all written on one. -/
theorem feed_not_mem_onOneLine
    (inline : ∀ parameter ∈ method.parameters.values, '\n' ∉ parameter.hint shortener)
    (feedless : ∀ parameter ∈ method.parameters.values, parameter.hasDefaultValue = true →
      parameter.defaultValue.literal.Feedless)
    (short : ¬method.Overlong shortener layout) :
    '\n' ∉ Parameter.onOneLine (method.parameterTexts shortener layout) := by
  have inside : '\n' ∉ joined [',', ' '] (method.parameterTexts shortener layout) := by
    rw [Literal.feed_mem_joined (by decide)]
    rintro ⟨part, listed, feed⟩
    have fits := length_le_joined [',', ' '] listed
    obtain ⟨parameter, member, dots, rfl⟩ := Parameter.exists_of_mem_renderAll listed
    have long :=
      Parameter.lt_length_of_feed (inline parameter member) (feedless parameter member) feed
    exact short (by unfold Overlong; omega)
  simpa [Parameter.onOneLine] using inside

/-- A parameter list holds a line feed just when it is too long for a line: then every parameter
has a line of its own, and otherwise all are on one. So a method with a body has the brace behind
a space where the list was wrapped, and on a line of its own otherwise. In particular a default
that is written on several lines is longer than the wrap length by itself. -/
theorem feed_mem_renderParameters_iff (plain : shortener.IsPlain)
    (feedless : ∀ parameter ∈ method.parameters.values, parameter.Feedless) (layout : Layout) :
    ('\n' ∈ method.renderParameters shortener layout ↔ method.Overlong shortener layout) ∧
    (method.renderParameters shortener layout =
        Parameter.onLines layout (method.parameterTexts shortener layout) ↔
      method.Overlong shortener layout) ∧
    (¬method.Overlong shortener layout → method.renderParameters shortener layout =
      Parameter.onOneLine (method.parameterTexts shortener layout)) ∧
    (method.hasBody = true → method.render shortener layout =
      method.signature shortener layout ++
        [if method.Overlong shortener layout then ' ' else '\n', '{', '\n'] ++
          bodyText layout (charsOf method.body) ++ ['}']) ∧
    ∀ parameter ∈ method.parameters.values, parameter.hasDefaultValue = true →
      '\n' ∈ parameter.defaultValue.literal.text layout →
        layout.wrapLength < (parameter.defaultValue.literal.text layout).length := by
  have wrapped : '\n' ∈ Parameter.onLines layout (method.parameterTexts shortener layout) := by
    simp [Parameter.onLines]
  have flat (short : ¬method.Overlong shortener layout) := feed_not_mem_onOneLine
    (fun parameter listed => Parameter.feed_not_mem_hint plain (feedless parameter listed))
    (fun parameter listed => (feedless parameter listed).defaultValue) short
  have feeds : '\n' ∈ method.renderParameters shortener layout ↔
      method.Overlong shortener layout := by
    rw [renderParameters_eq]
    split
    next long => exact iff_of_true wrapped long
    next short => exact iff_of_false (flat short) short
  refine ⟨feeds, ?_, ?_, ?_, ?_⟩
  · refine ⟨fun same => feeds.1 (same ▸ wrapped), fun long => ?_⟩
    rw [renderParameters_eq, if_pos long]
  · intro short
    rw [renderParameters_eq, if_neg short]
  · intro body
    have found : (method.renderParameters shortener layout).contains '\n' =
        decide (method.Overlong shortener layout) := by
      rw [Bool.eq_iff_iff, List.contains_iff_mem, feeds, decide_eq_true_iff]
    rw [render, if_pos body, found]
    split
    next long => simp [long]
    next short => simp [short]
  · intro parameter listed given feed
    have long := Literal.lt_length_of_feed ((feedless parameter listed).defaultValue given) feed
    rw [Literal.text]
    omega

/-- A parameter of a type that the namespace `Net` writes short. -/
def server : Parameter :=
  { Parameter.named ⟨"server", by decide⟩ with typeHint := some "Net\\Server" }

/-- A parameter with a default of two ports. -/
def ports : Parameter :=
  { Parameter.named ⟨"ports", by decide⟩ with
    defaultValue := ⟨.list [.atom (.int 80), .atom (.int 443)], by decide, by decide +kernel⟩
    hasDefaultValue := true }

def listening : Method Parameter :=
  { (Method.named ⟨"listen", by decide⟩ : Method Parameter) with
    parameters := .ofList [("server", server), ("ports", ports)]
    body := some "return;" }

def net : Namespace := ⟨some ⟨"Net", by decide⟩, .empty⟩

/-- On lines of 20 characters the list is wrapped, on lines of 100 it is not. Where the ports are
wrapped, their text is too long by itself. -/
theorem feed_mem_renderParameters_listening :
    ('\n' ∈ listening.renderParameters (.ofNamespace net) ⟨"\t", 20⟩ ∧
      listening.render (.ofNamespace net) ⟨"\t", 20⟩ =
        ("function listen(\n\tServer $server,\n\t$ports = [80, 443]\n) " ++
          "\x7b\n\treturn;\n\x7d").toList) ∧
    '\n' ∉ listening.renderParameters (.ofNamespace net) .standard ∧
      listening.render (.ofNamespace net) .standard =
        ("function listen(Server $server, $ports = [80, 443])\n" ++
          "\x7b\n\treturn;\n\x7d").toList ∧
    7 < (ports.defaultValue.literal.text ⟨"\t", 7⟩).length := by
  have plain : (Shortener.ofNamespace net).IsPlain := .inr ⟨net, rfl⟩
  have values : listening.parameters.values = [server, ports] := rfl
  have feedless : ∀ parameter ∈ listening.parameters.values, parameter.Feedless := by
    rw [values, List.forall_mem_cons, List.forall_mem_singleton]
    refine ⟨⟨?_, nofun⟩, ⟨nofun, fun _ => ?_⟩⟩
    · intro type given
      cases given
      decide
    · decide
  have body : listening.hasBody = true := by decide
  obtain ⟨narrow, -, -, braceBehind, -⟩ := feed_mem_renderParameters_iff plain feedless ⟨"\t", 20⟩
  obtain ⟨wide, -, -, braceBelow, -⟩ := feed_mem_renderParameters_iff plain feedless .standard
  have long : listening.Overlong (.ofNamespace net) ⟨"\t", 20⟩ := by decide +kernel
  have short : ¬listening.Overlong (.ofNamespace net) .standard := by decide +kernel
  obtain ⟨-, -, -, -, defaults⟩ := feed_mem_renderParameters_iff plain feedless ⟨"\t", 7⟩
  refine ⟨⟨narrow.2 long, ?_⟩, mt wide.1 short, ?_, ?_⟩
  · rw [braceBehind body, if_pos long]
    decide +kernel
  · rw [braceBelow body, if_neg short]
    decide +kernel
  · have wrapped := defaults ports (by rw [values]; simp) rfl (by decide +kernel)
    exact Int.ofNat_lt.1 wrapped

end Method

end PhpDecl
