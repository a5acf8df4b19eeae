import PhpDecl.Proofs.Decomposition
import PhpDecl.Proofs.Reading.Number
import PhpDecl.Proofs.Strings

/-!
# Names in declarations

Where no shortener is at hand, every name stands in the text of a declaration where it is declared,
as it comes out of indenting and normalizing. Names are made of characters from U+007F up, besides
the usual ones. Of these normalizing takes out the first, and indenting takes three for ends of
lines and puts the margin behind them. Any other name stands there as it is stored.
-/

namespace PhpDecl

open Text

/-! ## The characters of names -/

namespace Name

/-- The characters of qualified names. -/
def isNameChar (c : Char) : Bool := isRest c || c == separator

theorem all_isNameChar_of_matchSegments {atStart : Bool} {text : List Char}
    (valid : matchSegments atStart text = true) : text.all isNameChar = true := by
  induction text generalizing atStart with
  | nil => rfl
  | cons c rest ih =>
      rw [List.all_cons, Bool.and_eq_true, isNameChar, isRest]
      cases atStart with
      | true =>
          rw [matchSegments, Bool.and_eq_true] at valid
          exact ⟨by rw [valid.1]; rfl, ih valid.2⟩
      | false =>
          rw [matchSegments] at valid
          split at valid
          next separates => exact ⟨by rw [separates, Bool.or_true], ih valid⟩
          next =>
            rw [Bool.and_eq_true, isRest] at valid
            exact ⟨by rw [valid.1]; rfl, ih valid.2⟩

theorem all_isNameChar_of_isTypeName {text : List Char} (valid : isTypeName text = true) :
    text.all isNameChar = true := by
  cases text with
  | nil => cases valid
  | cons c rest =>
      rw [isTypeName] at valid
      split at valid
      next separates =>
        rw [List.all_cons, isNameChar, separates, Bool.or_true, Bool.true_and]
        exact all_isNameChar_of_matchSegments valid
      next => exact all_isNameChar_of_matchSegments valid

theorem all_isNameChar_of_isIdentifier {text : List Char} (valid : isIdentifier text = true) :
    text.all isNameChar = true :=
  List.all_eq_true.2 fun c member => by rw [isNameChar, isRest_of_mem valid member]; rfl

/-- No character of a name stands before the digits. -/
theorem le_toNat_of_isNameChar {c : Char} (named : isNameChar c = true) : 0x30 ≤ c.toNat := by
  refine Nat.le_of_not_lt fun low => ?_
  have unnamed := forall_low (P := fun c => isNameChar c = false) (by decide +kernel) low
  rw [named] at unnamed
  cases unnamed

theorem isPad_of_isNameChar {c : Char} (named : isNameChar c = true) : isPad c = false := by
  have bound := le_toNat_of_isNameChar named
  rw [isPad, Bool.or_eq_false_iff, beq_eq_false_iff_ne, beq_eq_false_iff_ne]
  constructor
  all_goals
    rintro rfl
    exact absurd bound (by decide)

theorem ne_nil_of_isTypeName {text : List Char} (valid : isTypeName text = true) :
    text ≠ [] := by
  rintro rfl
  cases valid

theorem ne_nil_of_isIdentifier {text : List Char} (valid : isIdentifier text = true) :
    text ≠ [] := by
  rintro rfl
  cases valid

/-- The character stays as it is in a name, under a margin. -/
def StaysUnder (margin : List Char) (c : Char) : Prop :=
  c.toNat ≠ 0x7f ∧ (margin = [] ∨ ¬(c.toNat = 0x85 ∨ c.toNat = 0x2028 ∨ c.toNat = 0x2029))

/-- A name is carried over as it is just when all of its characters stay. -/
theorem carried_eq_self_iff {margin : List Char} (blank : margin.all isPad = true)
    {text : List Char} (named : text.all isNameChar = true) :
    carried margin text = text ↔ ∀ c ∈ text, StaysUnder margin c := by
  rw [Text.carried_eq_self_iff blank]
  refine forall₂_congr fun c member => ?_
  have bound := le_toNat_of_isNameChar (List.all_eq_true.1 named c member)
  have control : isStrayControl c = false ↔ c.toNat ≠ 0x7f := by
    simp only [isStrayControl, Bool.or_eq_false_iff, Bool.and_eq_false_iff, decide_eq_false_iff_not,
      beq_eq_false_iff_ne]
    omega
  have inside : isLineBreak c = false ↔
      ¬(c.toNat = 0x85 ∨ c.toNat = 0x2028 ∨ c.toNat = 0x2029) := by
    simp only [isLineBreak, Bool.or_eq_false_iff, Bool.and_eq_false_iff, decide_eq_false_iff_not,
      beq_eq_false_iff_ne]
    omega
  rw [control, inside, StaysUnder]

theorem all_isInline_of_all_isNameChar {text : List Char} (named : text.all isNameChar = true) :
    text.all isInline = true :=
  List.all_eq_true.2 fun c member =>
    isInline_of_class (p := isNameChar) (by decide) (by decide) (List.all_eq_true.1 named c member)

end Name

namespace Text

/-- The text ends in a blank, behind a character that is none. -/
def EndsSpaced (text : List Char) : Prop :=
  ∃ front last, text = front ++ [last, ' '] ∧ isPad last = false

theorem EndsSpaced.after {text : List Char} (spaced : EndsSpaced text) (before : List Char) :
    EndsSpaced (before ++ text) := by
  obtain ⟨front, last, rfl, written⟩ := spaced
  exact ⟨before ++ front, last, (List.append_assoc ..).symm, written⟩

theorem endsSpaced_of_all {text : List Char} (written : text.all (!isPad ·) = true)
    (some : text ≠ []) : EndsSpaced (text ++ [' ']) := by
  obtain ⟨front, last, rfl⟩ := List.eq_nil_or_concat text |>.resolve_left some
  rw [List.concat_eq_append, List.all_append, Bool.and_eq_true] at written
  rw [List.concat_eq_append, List.append_assoc]
  exact ⟨front, last, rfl, by simpa using written.2⟩

theorem endsSpaced_of_all_isNameChar {text : List Char} (named : text.all Name.isNameChar = true)
    (some : text ≠ []) : EndsSpaced (text ++ [' ']) := by
  refine endsSpaced_of_all (List.all_eq_true.2 fun c member => ?_) some
  rw [Name.isPad_of_isNameChar (List.all_eq_true.1 named c member)]
  rfl

end Text

namespace Word

/-- A word is printed as it is stored just when it is a plain text whose characters all stay. -/
theorem carried_shown_eq_iff {margin : List Char} (blank : margin.all isPad = true) {word : Word}
    (named : word.chars.all Name.isNameChar = true) :
    carried margin word.shown.toList = word.chars ↔
      (∃ text, word = .text text) ∧ ∀ c ∈ word.chars, Name.StaysUnder margin c := by
  cases word with
  | text s =>
      have plain : ∃ text, Word.text s = .text text := ⟨s, rfl⟩
      rw [and_iff_right plain]
      exact Name.carried_eq_self_iff blank named
  | kind k =>
      have full : carried margin k.fullName.toList = k.fullName.toList := by
        refine carried_of_all_isPlain blank ?_
        cases k <;> decide
      refine iff_of_false ?_ ?_
      · change ¬carried margin k.fullName.toList = k.keyword.toList
        rw [full]
        cases k <;> decide
      · rintro ⟨⟨text, same⟩, -⟩
        cases same

theorem endsSpaced_shown {word : Word} (named : word.chars.all Name.isNameChar = true)
    (some : word.chars ≠ []) : EndsSpaced (word.shown.toList ++ [' ']) := by
  cases word with
  | text s => exact endsSpaced_of_all_isNameChar named some
  | kind k => cases k <;> exact endsSpaced_of_all (by decide) (by decide)

theorem all_isInline_shown {word : Word} (named : word.chars.all Name.isNameChar = true) :
    word.shown.toList.all isInline = true := by
  cases word with
  | text s => exact Name.all_isInline_of_all_isNameChar named
  | kind k => cases k <;> decide

end Word

/-! ## The head of a declaration -/

namespace Declaration

/-- Type names behind their keyword, each written in a given way. -/
def typeClause (write : List Char → List Char) (keyword : String) (names : List TypeName) :
    List Char :=
  if names.isEmpty then []
  else keyword.toList ++ [' '] ++ joined [',', ' '] (names.map fun name => write name.word.chars) ++
    [' ']

/-- The head of a declaration up to the end of its line, each name written in a given way. -/
def headLine (write : List Char → List Char) (d : PlainDeclaration) : List Char :=
  textIf d.abstract "abstract " ++ textIf d.final "final " ++
    (match d.name with
    | none => []
    | some name => d.kind.keyword.toList ++ [' '] ++ write name.word.shown.toList ++ [' ']) ++
    typeClause write "extends" d.supertypes.toList ++ typeClause write "implements" d.interfaces

variable (d : PlainDeclaration)

theorem header_full :
    d.header .full = d.headLine id ++ (textIf d.name.isSome "\n" ++ ['{', '\n']) := by
  rw [header, List.append_assoc]
  rfl

theorem carried_typeClause {keyword : String} (plain : keyword.toList.all isPlain = true)
    (names : List TypeName) :
    carried [] (typeClause id keyword names) = typeClause (carried []) keyword names := by
  rw [typeClause, typeClause]
  split
  · rfl
  · simp only [carried_append, carried_joined, carried_of_all_isPlain List.all_nil plain,
      List.map_map]
    rfl

/-- Without a margin only what stands in the names may be taken out of the head. -/
theorem carried_headLine : carried [] (d.headLine id) = d.headLine (carried []) := by
  have modifiers (condition : Bool) {text : String} (plain : text.toList.all isPlain = true) :
      carried [] (textIf condition text) = textIf condition text :=
    carried_of_all_isPlain List.all_nil (all_isPlain_textIf plain condition)
  rw [headLine, headLine, carried_append, carried_append, carried_append, carried_append,
    modifiers _ (by decide), modifiers _ (by decide), carried_typeClause (by decide),
    carried_typeClause (by decide)]
  cases d.name with
  | none => rfl
  | some name =>
      have keyword : carried [] d.kind.keyword.toList = d.kind.keyword.toList := by
        refine carried_of_all_isPlain List.all_nil ?_
        cases d.kind <;> decide
      simp only [carried_append, keyword]
      rfl

theorem all_isInline_typeClause {keyword : String} (plain : keyword.toList.all isPlain = true)
    (names : List TypeName) : (typeClause id keyword names).all isInline = true := by
  rw [typeClause]
  split
  · rfl
  · have inline : (joined [',', ' '] (names.map fun name => id name.word.chars)).all isInline =
        true := by
      refine all_joined (by decide) fun part member => ?_
      obtain ⟨name, _, rfl⟩ := List.mem_map.1 member
      exact Name.all_isInline_of_all_isNameChar (Name.all_isNameChar_of_isTypeName name.valid)
    rw [List.all_append, List.all_append, List.all_append, all_isInline_of_all_isPlain plain,
      inline]
    rfl

/-- The head of a declaration stands on one line. -/
theorem all_isInline_headLine : (d.headLine id).all isInline = true := by
  have modifiers (condition : Bool) {text : String} (plain : text.toList.all isPlain = true) :
      (textIf condition text).all isInline = true :=
    all_isInline_of_all_isPlain (all_isPlain_textIf plain condition)
  rw [headLine, List.all_append, List.all_append, List.all_append, List.all_append,
    modifiers _ (by decide), modifiers _ (by decide), all_isInline_typeClause (by decide),
    all_isInline_typeClause (by decide)]
  cases d.name with
  | none => rfl
  | some name =>
      have keyword : d.kind.keyword.toList.all isInline = true := by
        cases d.kind <;> decide
      have shown := Word.all_isInline_shown (Name.all_isNameChar_of_isIdentifier name.valid)
      have spaced : ([' '] : List Char).all isInline = true := by decide
      simp only [List.all_append, keyword, spaced, id_eq, shown]
      rfl

/-- The head of a declaration as it is printed: no stray control stands in the names, and where it
ends a line no blank stands at its end. -/
def printedHead : List Char :=
  (if d.name.isSome then dropEndWhile isPad (d.headLine (carried [])) ++ ['\n']
    else d.headLine (carried [])) ++ ['{']

/-- A head with a name ends in a blank, behind a character that is none. -/
theorem endsSpaced_headLine {label : Label} (named : d.name = some label) :
    EndsSpaced (d.headLine id) := by
  have clause (keyword : String) {names : List TypeName} (some : names.isEmpty = false) :
      EndsSpaced (typeClause id keyword names) := by
    rcases List.eq_nil_or_concat names with rfl | ⟨front, name, rfl⟩
    · cases some
    · obtain ⟨before, list⟩ := exists_joined [',', ' '] name.word.chars
        (front.map fun name => name.word.chars) []
      rw [List.concat_eq_append, typeClause, if_neg (by simp), List.map_append]
      change EndsSpaced (_ ++ joined _ ((front.map fun name => name.word.chars) ++
        [name.word.chars]) ++ _)
      rw [list, List.isEmpty_nil, if_pos rfl, List.append_nil, List.append_assoc,
        List.append_assoc before]
      refine (EndsSpaced.after ?_ before).after _
      exact endsSpaced_of_all_isNameChar (Name.all_isNameChar_of_isTypeName name.valid)
        (Name.ne_nil_of_isTypeName name.valid)
  have own : EndsSpaced (label.word.shown.toList ++ [' ']) :=
    Word.endsSpaced_shown (Name.all_isNameChar_of_isIdentifier label.valid)
      (Name.ne_nil_of_isIdentifier label.valid)
  rw [headLine]
  cases interfaces : d.interfaces.isEmpty with
  | false => exact (clause "implements" interfaces).after _
  | true =>
      have none : typeClause id "implements" d.interfaces = [] := if_pos interfaces
      rw [none, List.append_nil]
      cases supertypes : d.supertypes.toList.isEmpty with
      | false => exact (clause "extends" supertypes).after _
      | true =>
          rw [typeClause, if_pos supertypes, List.append_nil, named]
          refine EndsSpaced.after ?_ _
          change EndsSpaced (_ ++ _ ++ label.word.shown.toList ++ [' '])
          rw [List.append_assoc]
          exact own.after _

theorem settleLines_header : settleLines (d.header .full) = d.printedHead ++ ['\n'] := by
  have kept : (d.headLine id).filter (!isStrayControl ·) = d.headLine (carried []) := by
    rw [filter_eq_carried, carried_headLine]
  have brace : settleLines ['{', '\n'] = ['{', '\n'] := by decide
  rw [header_full, printedHead]
  cases d.name.isSome with
  | true =>
      have line := settleLines_feed d.all_isInline_headLine ['{', '\n']
      rw [kept, brace] at line
      simpa [textIf] using line
  | false =>
      have line := settleLines_inline d.all_isInline_headLine (by decide : isFirm '{' = true)
        (by decide) ['\n']
      have feed : settleLines ['\n'] = ['\n'] := by decide
      rw [kept, feed] at line
      simpa [textIf] using line

/-- A head of names that stay is printed as it is, up to the blank at the end of its line. -/
theorem exists_printedHead {label : Label} (named : d.name = some label)
    (own : carried [] label.word.shown.toList = label.word.shown.toList)
    (others : ∀ name ∈ d.supertypes.toList ++ d.interfaces,
      carried [] name.word.chars = name.word.chars) :
    ∃ line, d.headLine id = line ++ [' '] ∧ d.printedHead = line ++ ['\n', '\x7b'] := by
  have clause (keyword : String) {names : List TypeName}
      (stay : ∀ name ∈ names, carried [] name.word.chars = name.word.chars) :
      typeClause (carried []) keyword names = typeClause id keyword names := by
    rw [typeClause, typeClause, List.map_congr_left stay]
    rfl
  have same : d.headLine (carried []) = d.headLine id := by
    rw [headLine, headLine, named,
      clause _ fun name member => others name (List.mem_append_left _ member),
      clause _ fun name member => others name (List.mem_append_right _ member)]
    simp only [own, id_eq]
  obtain ⟨front, last, line, written⟩ := d.endsSpaced_headLine named
  refine ⟨front ++ [last], by rw [line]; simp, ?_⟩
  have trimmed : dropEndWhile isPad (front ++ [last, ' ']) = front ++ [last] := by
    rw [dropEndWhile_append_cons (by simpa using written)]
    rfl
  rw [printedHead, named, same, line, trimmed, Option.isSome_some, if_pos rfl, List.append_assoc]
  rfl

theorem exists_header_cons : ∃ c rest, d.header .full = c :: rest ∧ isInk c = true := by
  have clause (names : List TypeName) {keyword : String}
      (opens : keyword.toList.head?.any isInk = true) :
      (nameClause .full keyword names).head?.all isInk = true := by
    rw [nameClause]
    split
    · rfl
    · rw [List.append_assoc, List.append_assoc]
      exact all_head?_of_any (any_head?_append_left opens _)
  have opens : (d.header .full).head?.any isInk = true := by
    rw [header]
    simp only [List.append_assoc]
    refine any_head?_append (all_head?_textIf rfl _) ?_
    refine any_head?_append (all_head?_textIf rfl _) ?_
    cases d.name with
    | none =>
        refine any_head?_append rfl ?_
        exact any_head?_append (clause _ rfl) (any_head?_append (clause _ rfl) rfl)
    | some name =>
        refine any_head?_append_left ?_ _
        cases d.kind <;> rfl
  exact exists_cons_of_any_head? opens

/-- The head stands on lines of its own behind the comment. -/
theorem exists_normalize_head : ∃ before, EndsLine before ∧
    normalize (d.commentText ++ d.header .full) = before ++ d.printedHead := by
  obtain ⟨lines, ended, settles⟩ := (DocComment.endsLine_render
    ((d.comment.map Word.chars).getD [] ++ ['\n'])).exists_settleLines
  obtain ⟨c, rest, header, ink⟩ := d.exists_header_cons
  rw [isInk, Bool.and_eq_true, Bool.not_eq_true'] at ink
  have noFeed := (ne_feed_of_not_isLineBreak (Bool.eq_false_iff.1 ink.2)).2
  have head : c :: settleLines rest = d.printedHead ++ ['\n'] := by
    rw [← settleLines_header, header, settleLines_cons ink.1]
  refine ⟨lines.dropWhile (· == '\n'), ended.dropWhile _, ?_⟩
  calc
    _ = trimBreaks (lines ++ c :: settleLines rest) := by
        rw [normalize_eq, commentText, settles, header, settleLines_cons ink.1]
    _ = lines.dropWhile (· == '\n') ++ dropEndWhile (· == '\n') (c :: settleLines rest) := by
        have stays := dropEndWhile_append_cons (p := (· == '\n')) (a := c) (by simpa using noFeed)
          [] (settleLines rest)
        rw [trimBreaks_append_cons noFeed, ← List.nil_append (c :: settleLines rest), stays,
          List.nil_append]
    _ = lines.dropWhile (· == '\n') ++ d.printedHead := by
        rw [head, printedHead, List.append_assoc, List.singleton_append,
          dropEndWhile_append_cons (by decide)]
        rfl

end Declaration

/-! ## Members -/

/-- The name of a parameter in front of what stands behind it; where this is the end of a line, no
blank stands at the end of the name. -/
def Layout.parameterName (layout : Layout) (stop : Char) (name : Identifier) : List Char :=
  if stop = '\n' then dropEndWhile isPad (carried layout.unit name.chars)
  else carried layout.unit name.chars

/-- In the text every name of the declaration stands where it is declared: those of the head in it,
the name of a trait and of a member on a line of its own, and that of a parameter in the parentheses
behind the name of its method. -/
structure Declaration.HoldsNames (d : PlainDeclaration) (layout : Layout) (text : List Char) :
    Prop where
  head : ∃ before after, EndsLine before ∧ text = before ++ d.printedHead ++ '\n' :: after
  traits : ∀ {use}, use ∈ d.traits.entries → ∃ before after, text = before ++
    '\n' :: (layout.unit ++ "use ".toList ++ carried layout.unit use.1.word.shown.toList ++
      (if use.2.isEmpty then [';'] else " \x7b".toList) ++ after)
  constants : ∀ {constant}, constant ∈ d.constants.values → ∃ before after, text = before ++
    '\n' :: (layout.unit ++ (Visibility.lead constant.visibility ++ "const ".toList) ++
      carried layout.unit constant.name.chars ++ " =".toList ++ after) ∧
    ((∀ code, constant.value.literal ≠ .atom (.code code)) → ∃ rest, after = ' ' :: rest)
  properties : ∀ {property}, property ∈ d.properties.values → ∃ before after, text = before ++
    '\n' :: (layout.unit ++ ((property.visibility.getD .publicAccess).keyword.toList ++
      textIf property.static " static" ++ " $".toList) ++
      carried layout.unit property.name.chars ++
        (if property.value.literal.isNull then [';'] else " =".toList) ++ after)
  methods : ∀ {method}, method ∈ d.methods.values → ∃ before after, text = before ++
    '\n' :: (layout.unit ++ (method.modifiers ++ "function ".toList ++
      textIf method.returnReference "&") ++ carried layout.unit method.name.chars ++ '(' :: after)
  parameters : ∀ {method parameter}, method ∈ d.methods.values →
    parameter ∈ method.parameters.values → ∃ before between stop after, text = before ++
      '\n' :: (layout.unit ++ (method.modifiers ++ "function ".toList ++
        textIf method.returnReference "&") ++ carried layout.unit method.name.chars ++
          '(' :: (between ++ '$' :: (layout.parameterName stop parameter.name ++ stop :: after))) ∧
      (stop = ' ' ∨ Parameter.isStop stop = true)

namespace Declaration

variable {d : PlainDeclaration} {layout : Layout}

theorem exists_render_head : ∃ before after, EndsLine before ∧
    d.render .full layout = before ++ d.printedHead ++ '\n' :: after := by
  obtain ⟨before, ends, head⟩ := d.exists_normalize_head
  rw [render_eq, head]
  exact ⟨before, _, ends, rfl⟩

/-- A member behind its comment stands in the text of the declaration on a line of its own, with its
name as it is carried over. -/
theorem exists_render_named (blank : layout.unit.all isPad = true) {shortener : Shortener}
    {separator behind : List Char} {parts : List (List Char)}
    (group : (joined separator parts, behind) ∈ d.groups shortener layout)
    (separates : Separates separator) (comment : List Char) {lead name mark : List Char}
    (plain : lead.all isPlain = true) (inline : name.all isInline = true)
    (plainMark : mark.all isPlain = true) {last : Char} (firm : isFirm last = true)
    (inside : isLineBreak last = false) {rest : List Char}
    (own : DocComment.render comment ++ (lead ++ name ++ mark ++ last :: rest) ∈ parts) :
    ∃ before after, d.render shortener layout = before ++
      '\n' :: (layout.unit ++ lead ++ carried layout.unit name ++ mark ++ last :: after) := by
  obtain ⟨before, more, after, rendered⟩ := exists_render_of_member group separates own (by simp)
  have named := settled_named blank true plain inline plainMark firm inside (rest ++ '\n' :: more)
  refine ⟨before, settled layout.unit false (rest ++ '\n' :: more) ++ after, ?_⟩
  simp only [List.append_assoc, List.cons_append, if_true] at rendered named ⊢
  rw [rendered, named]
  simp only [List.append_assoc, List.cons_append]

theorem exists_render_trait (blank : layout.unit.all isPad = true) {use : TypeName × List Word}
    (member : use ∈ d.traits.entries) : ∃ before after, d.render .full layout = before ++
      '\n' :: (layout.unit ++ "use ".toList ++ carried layout.unit use.1.word.shown.toList ++
        (if use.2.isEmpty then [';'] else " \x7b".toList) ++ after) := by
  have own := List.mem_map_of_mem member (f := traitClause .full layout)
  have inline := Word.all_isInline_shown (Name.all_isNameChar_of_isTypeName use.1.valid)
  have plain : "use ".toList.all isPlain = true := by decide
  have group := d.traits_mem_groups .full layout
  rw [traitClause] at own
  split at own
  next empty =>
    have clause : DocComment.render [] ++ ("use ".toList ++ use.1.word.shown.toList ++ [] ++
        ';' :: []) ∈ d.traits.entries.map (traitClause .full layout) := by
      rw [List.append_nil]
      exact own
    obtain ⟨before, after, rendered⟩ := exists_render_named blank group (separates_replicate 0) []
      plain inline (by decide) (by decide) (by decide) clause
    refine ⟨before, after, ?_⟩
    rw [if_pos empty, rendered, List.append_nil, List.append_assoc _ [';']]
    rfl
  next written =>
    have clause : DocComment.render [] ++ ("use ".toList ++ use.1.word.shown.toList ++ [' '] ++
        '\x7b' :: ('\n' :: (layout.unit ++ joined ([';', '\n'] ++ layout.unit)
          (use.2.map Word.chars) ++ ";\n\x7d".toList))) ∈
        d.traits.entries.map (traitClause .full layout) := by
      simp only [List.append_assoc] at own ⊢
      exact own
    obtain ⟨before, after, rendered⟩ := exists_render_named blank group (separates_replicate 0) []
      plain inline (by decide) (by decide) (by decide) clause
    refine ⟨before, after, ?_⟩
    rw [if_neg written, rendered]
    simp

end Declaration

/-! ## The literal behind a name -/

namespace Reading

theorem isInk_of_isWordChar {c : Char} (word : isWordChar c = true) : isInk c = true := by
  by_cases low : c.toNat < 0x86
  · exact forall_low (P := fun c => isWordChar c = true → isInk c = true) (by decide +kernel)
      low word
  · -- Above there are no other ends of lines than the separators, which are in no word.
    have apart {d : Char} (other : isWordChar d = false) : c.toNat ≠ d.toNat := by
      intro same
      rw [Char.toNat_inj.1 same, other] at word
      cases word
    have line : c.toNat ≠ 0x2028 := apart (d := '\u2028') (by decide)
    have paragraph : c.toNat ≠ 0x2029 := apart (d := '\u2029') (by decide)
    have differs (d : Char) (lower : d.toNat < 0x86) : c ≠ d := by
      rintro rfl
      exact low lower
    simp only [isInk, isFirm, isPad, isStrayControl, isLineBreak, Bool.and_eq_true,
      Bool.not_eq_true', bne_iff_ne, Bool.or_eq_false_iff, beq_eq_false_iff_ne,
      Bool.and_eq_false_iff, decide_eq_false_iff_not]
    refine ⟨⟨⟨differs _ (by decide), differs _ (by decide), differs _ (by decide)⟩, ?_⟩, ?_⟩
    all_goals omega

/-- A word starts with a character that stays. -/
theorem any_head?_of_isWord {letters : List Char} (word : isWord letters = true) :
    letters.head?.any isInk = true := by
  cases letters with
  | nil => cases word
  | cons c rest =>
      have first := all_isWordChar_of_isWord word
      rw [List.all_cons, Bool.and_eq_true] at first
      exact isInk_of_isWordChar first.1

end Reading

namespace Literal

theorem any_head?_arrayText (layout : Layout) (level : Nat) (parts : List (List Char)) :
    (arrayText layout level parts).head?.any isInk = true := by
  rw [arrayText]
  split
  · rfl
  · split
    · rfl
    · rfl

/-- A literal that is no code starts with a character that stays. -/
theorem any_head?_text {literal : Literal} (plain : ∀ code, literal ≠ .atom (.code code))
    (layout : Layout) : (literal.text layout).head?.any isInk = true := by
  cases literal with
  | atom a =>
      cases a with
      | null => rfl
      | bool b => cases b <;> rfl
      | int n =>
          exact Reading.any_head?_of_isWord
            (Reading.isWord_of_ofWord? (Reading.ofWord?_intText n))
      | float x =>
          exact Reading.any_head?_of_isWord
            (Reading.isWord_of_ofWord? (Reading.ofWord?_doubleLiteral x))
      | word w =>
          change (Quoted.encode w.chars).head?.any isInk = true
          rw [Quoted.encode]
          split
          · rfl
          · rfl
      | code text => exact absurd rfl (plain text)
  | list items => exact any_head?_arrayText layout 0 _
  | tuple items => exact any_head?_arrayText layout 0 _
  | dict entries => exact any_head?_arrayText layout 0 _

end Literal

/-! ## Names of members -/

theorem Method.exists_render_opening (shortener : Shortener) (layout : Layout)
    (method : Method Parameter) : ∃ rest, method.render shortener layout =
      DocComment.render (charsOf method.comment ++ ['\n']) ++
        (method.modifiers ++ "function ".toList ++ textIf method.returnReference "&" ++
          method.name.chars ++ '(' :: rest) := by
  obtain ⟨body, whole⟩ := method.exists_render_signature shortener layout
  obtain ⟨list, opens⟩ : ∃ list, method.renderParameters shortener layout = '(' :: list := by
    rw [renderParameters, Parameter.listText]
    split
    · exact ⟨_, rfl⟩
    · exact ⟨_, rfl⟩
  refine ⟨list ++ method.returnText shortener ++ body, ?_⟩
  rw [whole, signature, opens]
  simp only [List.append_assoc, List.cons_append]

namespace Declaration

variable {d : PlainDeclaration} {layout : Layout}

theorem exists_render_constant_name (blank : layout.unit.all isPad = true) {constant : Constant}
    (member : constant ∈ d.constants.values) : ∃ before after, d.render .full layout = before ++
      '\n' :: (layout.unit ++ (Visibility.lead constant.visibility ++ "const ".toList) ++
        carried layout.unit constant.name.chars ++ " =".toList ++ after) ∧
      ((∀ code, constant.value.literal ≠ .atom (.code code)) → ∃ rest, after = ' ' :: rest) := by
  have own := List.mem_map_of_mem member (f := Constant.render layout)
  have group := d.constants_mem_groups .full layout
  rw [Constant.render] at own
  by_cases code : ∃ code, constant.value.literal = .atom (.code code)
  · have line : DocComment.render (charsOf constant.comment) ++ (
        (Visibility.lead constant.visibility ++ "const ".toList) ++ constant.name.chars ++ [' '] ++
          '=' :: (' ' :: (constant.value.literal.text layout ++ [';']))) ∈
        d.constants.values.map (Constant.render layout) := by
      simp only [List.append_assoc] at own ⊢
      exact own
    obtain ⟨before, after, rendered⟩ := exists_render_named blank group (separates_replicate 0) _
      constant.all_isPlain_lead constant.name.all_isInline (by decide) (by decide) (by decide) line
    refine ⟨before, after, ?_, fun plain => ?_⟩
    · rw [rendered, List.append_assoc _ [' '], List.append_assoc _ " =".toList]
      rfl
    · obtain ⟨text, same⟩ := code
      exact absurd same (plain text)
  · -- Any other literal starts with a character that keeps the blank in front of it.
    obtain ⟨c, rest, text, ink⟩ :=
      exists_cons_of_any_head? (Literal.any_head?_text (not_exists.1 code) layout)
    obtain ⟨firm, inside⟩ : isFirm c = true ∧ isLineBreak c = false := by simpa [isInk] using ink
    have line : DocComment.render (charsOf constant.comment) ++ (
        (Visibility.lead constant.visibility ++ "const ".toList) ++ constant.name.chars ++
          " = ".toList ++ c :: (rest ++ [';'])) ∈
        d.constants.values.map (Constant.render layout) := by
      rw [text] at own
      simp only [List.append_assoc] at own ⊢
      exact own
    obtain ⟨before, after, rendered⟩ := exists_render_named blank group (separates_replicate 0) _
      constant.all_isPlain_lead constant.name.all_isInline (by decide) firm inside line
    refine ⟨before, ' ' :: c :: after, ?_, fun _ => ⟨_, rfl⟩⟩
    rw [rendered, List.append_assoc _ " = ".toList, List.append_assoc _ " =".toList]
    rfl

theorem exists_render_property_name (blank : layout.unit.all isPad = true) {property : Property}
    (member : property ∈ d.properties.values) : ∃ before after, d.render .full layout = before ++
      '\n' :: (layout.unit ++ ((property.visibility.getD .publicAccess).keyword.toList ++
        textIf property.static " static" ++ " $".toList) ++
        carried layout.unit property.name.chars ++
          (if property.value.literal.isNull then [';'] else " =".toList) ++ after) := by
  have own := List.mem_map_of_mem member (f := Property.render layout)
  have group := d.properties_mem_groups .full layout
  rw [Property.render] at own
  split at own
  next null =>
    have line : DocComment.render (charsOf property.comment) ++ (
        ((property.visibility.getD .publicAccess).keyword.toList ++
          textIf property.static " static" ++ " $".toList) ++ property.name.chars ++ [] ++
            ';' :: []) ∈ d.properties.values.map (Property.render layout) := by
      simp only [List.append_assoc] at own ⊢
      exact own
    obtain ⟨before, after, rendered⟩ := exists_render_named blank group (separates_replicate 1) _
      property.all_isPlain_lead property.name.all_isInline (by decide) (by decide) (by decide) line
    refine ⟨before, after, ?_⟩
    rw [if_pos null, rendered, List.append_nil, List.append_assoc _ [';']]
    rfl
  next written =>
    have line : DocComment.render (charsOf property.comment) ++ (
        ((property.visibility.getD .publicAccess).keyword.toList ++
          textIf property.static " static" ++ " $".toList) ++ property.name.chars ++ [' '] ++
            '=' :: (' ' :: (property.value.literal.text layout ++ [';']))) ∈
        d.properties.values.map (Property.render layout) := by
      simp only [List.append_assoc] at own ⊢
      exact own
    obtain ⟨before, after, rendered⟩ := exists_render_named blank group (separates_replicate 1) _
      property.all_isPlain_lead property.name.all_isInline (by decide) (by decide) (by decide) line
    refine ⟨before, after, ?_⟩
    rw [if_neg written, rendered, List.append_assoc _ [' '], List.append_assoc _ " =".toList]
    rfl

theorem exists_render_method_name (blank : layout.unit.all isPad = true)
    {method : Method Parameter} (member : method ∈ d.methods.values) :
    ∃ before after, d.render .full layout = before ++
      '\n' :: (layout.unit ++ (method.modifiers ++ "function ".toList ++
        textIf method.returnReference "&") ++ carried layout.unit method.name.chars ++
          '(' :: after) := by
  have own := List.mem_map_of_mem member (f := Method.render .full layout)
  have group := d.methods_mem_groups .full layout
  obtain ⟨rest, written⟩ := method.exists_render_opening .full layout
  rw [written] at own
  have line : DocComment.render (charsOf method.comment ++ ['\n']) ++ (
      (method.modifiers ++ "function ".toList ++ textIf method.returnReference "&") ++
        method.name.chars ++ [] ++ '(' :: rest) ∈
      d.methods.values.map (Method.render .full layout) := by
    rw [List.append_nil]
    exact own
  obtain ⟨before, after, rendered⟩ := exists_render_named blank group (separates_replicate 2) _
    method.all_isPlain_lead method.name.all_isInline (by decide) (by decide) (by decide) line
  refine ⟨before, after, ?_⟩
  rw [rendered, List.append_nil]

/-- A name of a parameter is carried over in front of what may stand behind it. -/
theorem settled_parameterName (blank : layout.unit.all isPad = true) (name : Identifier)
    {stop : Char} (stops : Parameter.isStop stop = true) (rest : List Char) :
    settled layout.unit false (name.chars ++ stop :: rest) =
      layout.parameterName stop name ++ stop ::
        settled layout.unit (isLineBreak stop) rest := by
  by_cases feed : stop = '\n'
  · subst feed
    have line := settled_line blank name.all_isInline rest
    rw [line, Layout.parameterName, if_pos rfl]
    rfl
  · have inside : isLineBreak stop = false := by
      simp only [Parameter.isStop, Bool.or_eq_true, beq_iff_eq, feed, or_false] at stops
      rcases stops with rfl | rfl <;> decide
    have named := settled_named blank false (List.all_nil : [].all isPlain = true)
      name.all_isInline (List.all_nil : [].all isPlain = true)
      (Parameter.isFirm_of_isStop stops) inside rest
    rw [Layout.parameterName, if_neg feed, inside]
    simpa using named

theorem exists_render_parameter_name (blank : layout.unit.all isPad = true)
    {method : Method Parameter} {parameter : Parameter} (member : method ∈ d.methods.values)
    (inside : parameter ∈ method.parameters.values) : ∃ before between stop after,
      d.render .full layout = before ++
        '\n' :: (layout.unit ++ (method.modifiers ++ "function ".toList ++
          textIf method.returnReference "&") ++ carried layout.unit method.name.chars ++
            '(' :: (between ++ '$' ::
              (layout.parameterName stop parameter.name ++ stop :: after))) ∧
      (stop = ' ' ∨ Parameter.isStop stop = true) := by
  obtain ⟨earlier, later, split⟩ := List.append_of_mem inside
  obtain ⟨before, between, stop, rest, after, stops, rendered⟩ :=
    exists_render_of_parameter (d := d) blank .full member split
  split at rendered
  next default =>
    have named := settled_named blank false (List.all_nil : [].all isPlain = true)
      parameter.name.all_isInline (by decide : [' '].all isPlain = true)
      (by decide : isFirm '=' = true) (by decide)
      (' ' :: (parameter.defaultValue.literal.text layout ++ stop :: rest))
    have name : layout.parameterName ' ' parameter.name =
        carried layout.unit parameter.name.chars := if_neg (by decide)
    refine ⟨before, between, ' ', '=' :: (settled layout.unit false
      (' ' :: (parameter.defaultValue.literal.text layout ++ stop :: rest)) ++ after),
      ?_, .inl rfl⟩
    have equals : " = ".toList = [' ', '=', ' '] := rfl
    simp only [equals, List.append_assoc, List.cons_append, List.nil_append, Bool.false_eq_true,
      if_false] at rendered named ⊢
    rw [rendered, named, name]
    simp only [List.append_assoc, List.cons_append]
  next bare =>
    rw [List.append_nil, settled_parameterName blank parameter.name stops] at rendered
    refine ⟨before, between, stop, settled layout.unit (isLineBreak stop) rest ++ after, ?_,
      .inr stops⟩
    rw [rendered]
    simp only [List.append_assoc, List.cons_append]

/-- The text of a declaration holds every name of it. -/
theorem holdsNames_render (blank : layout.unit.all isPad = true) :
    d.HoldsNames layout (d.render .full layout) where
  head := exists_render_head
  traits := exists_render_trait blank
  constants := exists_render_constant_name blank
  properties := exists_render_property_name blank
  methods := exists_render_method_name blank
  parameters := exists_render_parameter_name blank

end Declaration

/-- A name of a parameter that stays is printed as it is, whatever stands behind it. -/
theorem Layout.parameterName_eq_self {layout : Layout} {name : Identifier}
    (stays : carried layout.unit name.chars = name.chars) (stop : Char) :
    layout.parameterName stop name = name.chars := by
  obtain ⟨front, last, split⟩ :=
    List.eq_nil_or_concat name.chars |>.resolve_left (Name.ne_nil_of_isIdentifier name.valid)
  have named := Name.all_isNameChar_of_isIdentifier name.valid
  change name.chars.all _ = true at named
  rw [split, List.concat_eq_append, List.all_append, Bool.and_eq_true] at named
  have written := Name.isPad_of_isNameChar (by simpa using named.2 : Name.isNameChar last = true)
  have trimmed : dropEndWhile isPad name.chars = name.chars := by
    rw [split, List.concat_eq_append, dropEndWhile_append_cons (by simpa using written)]
    rfl
  rw [parameterName, stays, trimmed, ite_self]

namespace Session

/-- In every session that can be reached, a declaration that no namespace is bound to is written
with all of its names where they are declared, as they are carried over: those of the head without
a margin, the others under that of the body. A name is carried over as it is stored just when all
of its characters stay, and that of the declaration and of a trait only if it was given as a text,
since a kind is printed there by its full name. -/
theorem Reachable.holdsNames_renderWith {session : Session} (reachable : session.Reachable)
    {h : Handle .classType} (unbound : (session.store.classes.get h).scope = none)
    {layout : Layout} (blank : layout.unit.all isPad = true) :
    (∃ text, (Op.renderWith (.classType h) none layout).run session.store =
        .ok (.text (String.ofList text)) session.store ∧
      (session.store.plain h).HoldsNames layout text) ∧
    (∀ label, (session.store.plain h).name = some label →
      (carried [] label.word.shown.toList = label.word.chars ↔
        (∃ text, label.word = .text text) ∧ ∀ c ∈ label.word.chars, Name.StaysUnder [] c) ∧
      (carried [] label.word.shown.toList = label.word.shown.toList →
        (∀ name ∈ (session.store.plain h).supertypes.toList ++ (session.store.plain h).interfaces,
          carried [] name.word.chars = name.word.chars) →
        ∃ line, (session.store.plain h).headLine id = line ++ [' '] ∧
          (session.store.plain h).printedHead = line ++ ['\n', '\x7b'])) ∧
    (∀ name : TypeName, (carried [] name.word.chars = name.word.chars ↔
        ∀ c ∈ name.word.chars, Name.StaysUnder [] c) ∧
      (carried layout.unit name.word.shown.toList = name.word.chars ↔
        (∃ text, name.word = .text text) ∧
          ∀ c ∈ name.word.chars, Name.StaysUnder layout.unit c)) ∧
    ∀ name : Identifier, (carried layout.unit name.chars = name.chars ↔
        ∀ c ∈ name.chars, Name.StaysUnder layout.unit c) ∧
      (carried layout.unit name.chars = name.chars →
        ∀ stop, layout.parameterName stop name = name.chars) := by
  obtain ⟨comment, read⟩ := Op.exists_classComment reachable.commented h
  have own : session.store.ownShortener h = .full := by
    rw [Store.ownShortener, unbound]
  have answer : (Op.renderWith (.classType h) none layout).run session.store =
      .ok (.text (String.ofList ((session.store.plain h).render .full layout)))
        session.store := by
    rw [← own]
    exact Op.run_renderWith_of_ok read none layout
  have type (name : TypeName) := Name.all_isNameChar_of_isTypeName name.valid
  refine ⟨⟨_, answer, Declaration.holdsNames_render blank⟩, fun label named => ⟨?_, ?_⟩,
    fun name => ⟨?_, ?_⟩, fun name => ⟨?_, Layout.parameterName_eq_self⟩⟩
  · exact Word.carried_shown_eq_iff List.all_nil (Name.all_isNameChar_of_isIdentifier label.valid)
  · exact Declaration.exists_printedHead _ named
  · exact Name.carried_eq_self_iff List.all_nil (type name)
  · exact Word.carried_shown_eq_iff blank (type name)
  · exact Name.carried_eq_self_iff blank (Name.all_isNameChar_of_isIdentifier name.valid)

/-- A session with a class that has a supertype and a delete in its name. -/
def deleted : Session :=
  start.after
    [⟨.newClass (.atom (.word (.text "A\x7fB"))) none, some "user", .prompt⟩,
      ⟨.ask "user" (some .setExtends) [.atom (.word (.text "Base"))], none, .prompt⟩]

theorem renderWith_deleted : ∃ before after,
    (Op.renderWith (.classType ⟨0⟩) none .standard).run deleted.store =
      .ok (.text (String.ofList
        (before ++ "class AB extends Base\n\x7b\n".toList ++ after))) deleted.store := by
  have reachable : deleted.Reachable := Reachable.start.after (by decide)
  have unbound : (deleted.store.classes.get ⟨0⟩).scope = none := by with_unfolding_all rfl
  obtain ⟨⟨text, answer, holds⟩, -⟩ :=
    reachable.holdsNames_renderWith unbound (by decide : Layout.standard.unit.all isPad = true)
  obtain ⟨before, after, -, same⟩ := holds.head
  have head : (deleted.store.plain ⟨0⟩).printedHead ++ ['\n'] =
      "class AB extends Base\n\x7b\n".toList := by decide +kernel
  refine ⟨before, after, ?_⟩
  rw [answer, same, ← head]
  simp only [List.append_assoc, List.singleton_append]

/-- Normalizing takes the delete out of the name, so that it is printed as another one. -/
theorem deleted_changes_name :
    (deleted.store.plain ⟨0⟩).name.map (·.word.chars) = some "A\x7fB".toList ∧
      ¬"class A\x7fB ".toList <:+: deleted.store.renderClass ⟨0⟩ none .standard := by
  decide +kernel

end Session

end PhpDecl
