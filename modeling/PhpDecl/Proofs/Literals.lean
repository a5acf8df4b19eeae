import PhpDecl.Name
import PhpDecl.Proofs.Settle
import PhpDecl.Text.Quoted

/-!
# Literals under a margin

The literal of a string holds no stray control, and no ends of lines but the two that are not
escaped: the separators of lines and of paragraphs. So indenting and normalizing leave it alone
when its text holds neither of them, and else put the margin into it
(`carried_encode_eq_self_iff`).
-/

namespace PhpDecl

open Text

/-! ## The characters of literals -/

namespace Text

/-- What is checked number by number holds of every low character. -/
theorem forall_low {bound : Nat} {P : Char → Prop} (each : ∀ n < bound, P (Char.ofNat n))
    {c : Char} (low : c.toNat < bound) : P c := by
  have own := each c.toNat low
  rwa [Char.ofNat_toNat] at own

/-- A text of characters of a class holds none that is outside of it. -/
theorem not_mem_of_all {p : Char → Bool} {text : List Char} (all : text.all p = true) {c : Char}
    (outside : p c = false) : c ∉ text := by
  intro member
  rw [List.all_eq_true.1 all c member] at outside
  cases outside

namespace Quoted

/-- Single quoting adds nothing but backslashes. -/
theorem mem_single {c : Char} (slash : c ≠ '\\') (text : List Char) :
    c ∈ single text ↔ c ∈ text := by
  fun_induction single text with
  | case1 => rfl
  | case2 rest ih => simp [slash, ih]
  | case3 => simp
  | case4 next rest _ ih => simp [slash, ih]
  | case5 next rest _ ih => simp [slash, ih]
  | case6 d rest _ _ ih => simp [ih]

def isVisible (c : Char) : Bool := 0x20 ≤ c.toNat && c.toNat ≤ 0x7e

/-- A low character is escaped by visible ones. -/
theorem all_isVisible_escaped {c : Char} (low : c.toNat < 0xa0) :
    (escaped c).all isVisible = true :=
  forall_low (P := fun c => (escaped c).all isVisible = true) (by decide +kernel) low

/-- A high character is not escaped. -/
theorem escaped_of_high {c : Char} (high : 0xa0 ≤ c.toNat) : escaped c = [c] := by
  have differs (d : Char) (low : d.toNat < 0xa0) : (c == d) = false := by
    rw [beq_eq_false_iff_ne]
    rintro rfl
    omega
  have ascii : ¬(c.toNat < 0x20 ∨ c.toNat = 0x7f) := by omega
  have control : ¬c.toNat < 0xa0 := by omega
  rw [escaped]
  simp [differs, ascii, control]

/-- Whatever stands in a literal stands raw there. -/
theorem isRaw_of_mem_encode {c : Char} {text : List Char} (member : c ∈ encode text) :
    isRaw c = true := by
  rw [encode] at member
  split at member
  next raw =>
    by_cases slash : c = '\\'
    · rw [slash]
      decide
    · simp only [List.mem_append, List.mem_cons, mem_single slash, List.not_mem_nil,
        or_false] at member
      rcases member with (rfl | inside) | rfl
      · decide
      · exact List.all_eq_true.1 raw c inside
      · decide
  next =>
    simp only [List.mem_append, List.mem_cons, List.mem_flatMap, List.not_mem_nil,
      or_false] at member
    rcases member with (rfl | ⟨d, _, inside⟩) | rfl
    · decide
    · by_cases high : 0xa0 ≤ d.toNat
      · rw [escaped_of_high high, List.mem_singleton] at inside
        simp [isRaw, inside, high]
      · have visible := List.all_eq_true.1 (all_isVisible_escaped (by omega)) c inside
        simp only [isVisible, Bool.and_eq_true, decide_eq_true_eq] at visible
        simp [isRaw, visible]
    · decide

/-- The high characters of a literal are those of its text. -/
theorem mem_encode {c : Char} (high : 0xa0 ≤ c.toNat) (text : List Char) :
    c ∈ encode text ↔ c ∈ text := by
  have differs (d : Char) (low : d.toNat < 0xa0) : c ≠ d := by
    rintro rfl
    omega
  rw [encode]
  split
  · simp [mem_single, differs]
  · simp only [List.mem_append, List.mem_cons, List.mem_flatMap, List.not_mem_nil, or_false,
      differs '"' (by decide), false_or]
    constructor
    · rintro ⟨d, member, inside⟩
      by_cases also : 0xa0 ≤ d.toNat
      · rw [escaped_of_high also, List.mem_singleton] at inside
        rwa [inside]
      · have visible := List.all_eq_true.1 (all_isVisible_escaped (by omega)) c inside
        simp only [isVisible, Bool.and_eq_true, decide_eq_true_eq] at visible
        omega
    · exact fun member => ⟨c, member, by rw [escaped_of_high high, List.mem_singleton]⟩

end Quoted

/-! ## What indenting leaves alone -/

/-- The separators of lines and of paragraphs. -/
def isSeparator (c : Char) : Bool := c.toNat == 0x2028 || c.toNat == 0x2029

theorem isStrayControl_of_isRaw {c : Char} (raw : Quoted.isRaw c = true) :
    isStrayControl c = false := by
  simp only [Quoted.isRaw, isStrayControl, Bool.or_eq_true, Bool.and_eq_true, Bool.or_eq_false_iff,
    Bool.and_eq_false_iff, decide_eq_true_eq, decide_eq_false_iff_not, beq_iff_eq,
    beq_eq_false_iff_ne] at raw ⊢
  omega

/-- The separators are the only ends of lines that stand raw in literals. -/
theorem isLineBreak_of_isRaw {c : Char} (raw : Quoted.isRaw c = true) :
    isLineBreak c = isSeparator c := by
  rw [Bool.eq_iff_iff]
  simp only [Quoted.isRaw, isLineBreak, isSeparator, Bool.or_eq_true, Bool.and_eq_true,
    decide_eq_true_eq, beq_iff_eq] at raw ⊢
  omega

/-- No stray control is carried over. -/
theorem isStrayControl_of_mem_carried {margin : List Char} (blank : margin.all isPad = true)
    {c : Char} {text : List Char} (member : c ∈ carried margin text) :
    isStrayControl c = false := by
  rw [← filter_interrupted blank, List.mem_filter] at member
  simpa using member.2

/-- A text is carried over with a margin for every character that ends a line, but without its
stray controls. -/
theorem length_carried (margin text : List Char) :
    (carried margin text).length + text.countP isStrayControl =
      text.length + text.countP isLineBreak * margin.length := by
  induction text with
  | nil => simp [carried]
  | cons c text ih =>
      rw [carried, List.flatMap_cons, ← carried]
      cases stray : isStrayControl c with
      | false =>
          cases ends : isLineBreak c with
          | false =>
              simp [stray, ends]
              omega
          | true =>
              simp [stray, ends, Nat.add_mul]
              omega
      | true =>
          cases ends : isLineBreak c with
          | false =>
              simp [stray, ends]
              omega
          | true =>
              simp [stray, ends, Nat.add_mul]
              omega

/-- A text is carried over as it is just when it holds no stray control and, under a margin, no
character that ends a line. -/
theorem carried_eq_self_iff {margin : List Char} (blank : margin.all isPad = true)
    (text : List Char) : carried margin text = text ↔
      ∀ c ∈ text, isStrayControl c = false ∧ (margin = [] ∨ isLineBreak c = false) := by
  constructor
  · intro same
    have plain : ∀ c ∈ text, isStrayControl c = false := fun c member =>
      isStrayControl_of_mem_carried blank (same.symm ▸ member)
    -- Nothing is left out, so the lengths say that nothing is put in.
    have strays : text.countP isStrayControl = 0 :=
      List.countP_eq_zero.2 fun c member => Bool.eq_false_iff.1 (plain c member)
    have length := length_carried margin text
    rw [same, strays, Nat.add_zero, Nat.left_eq_add, Nat.mul_eq_zero] at length
    intro c member
    refine ⟨plain c member, ?_⟩
    rcases length with breaks | empty
    · exact .inr (Bool.eq_false_iff.2 (List.countP_eq_zero.1 breaks c member))
    · exact .inl (List.eq_nil_of_length_eq_zero empty)
  · intro kept
    have single : ∀ c ∈ text, ((if isStrayControl c then [] else [c]) ++
        if isLineBreak c then margin else []) = [c] := by
      intro c member
      obtain ⟨plain, rfl | inside⟩ := kept c member
      · simp [plain]
      · simp [plain, inside]
    rw [carried, List.flatMap_def, List.map_congr_left single, ← List.flatMap_def,
      List.flatMap_singleton']

/-- A literal is carried over as it is just when, under a margin, its text holds no separator. -/
theorem carried_encode_eq_self_iff {margin : List Char} (blank : margin.all isPad = true)
    (text : List Char) : carried margin (Quoted.encode text) = Quoted.encode text ↔
      margin = [] ∨ ∀ c ∈ text, isSeparator c = false := by
  rw [carried_eq_self_iff blank]
  constructor
  · intro kept
    -- A separator of the text stands in its literal as well, where the margin gets in behind it.
    by_cases empty : margin = []
    · exact .inl empty
    · refine .inr fun c member => Bool.eq_false_iff.2 fun separator => ?_
      have high : 0xa0 ≤ c.toNat := by
        simp only [isSeparator, Bool.or_eq_true, beq_iff_eq] at separator
        omega
      have written := (Quoted.mem_encode high text).2 member
      have inside := (kept c written).2.resolve_left empty
      rw [isLineBreak_of_isRaw (Quoted.isRaw_of_mem_encode written), separator] at inside
      cases inside
  · intro intact c member
    have raw := Quoted.isRaw_of_mem_encode member
    refine ⟨isStrayControl_of_isRaw raw, intact.imp_right fun free => ?_⟩
    rw [isLineBreak_of_isRaw raw]
    by_cases high : 0xa0 ≤ c.toNat
    · exact free c ((Quoted.mem_encode high text).1 member)
    · simp only [isSeparator, Bool.or_eq_false_iff, beq_eq_false_iff_ne]
      omega

/-! ## Assignments -/

/-- A character that is carried over as it is, under every margin. -/
def isPlain (c : Char) : Bool := !isStrayControl c && !isLineBreak c

theorem all_isInline_of_all_isPlain {text : List Char} (plain : text.all isPlain = true) :
    text.all isInline = true :=
  List.all_eq_true.2 fun c member =>
    isInline_of_class (p := isPlain) (by decide) (by decide) (List.all_eq_true.1 plain c member)

theorem carried_of_all_isPlain {margin text : List Char} (blank : margin.all isPad = true)
    (plain : text.all isPlain = true) : carried margin text = text := by
  refine (carried_eq_self_iff blank text).2 fun c member => ?_
  have stays := List.all_eq_true.1 plain c member
  simp only [isPlain, Bool.and_eq_true, Bool.not_eq_true'] at stays
  exact ⟨stays.1, .inr stays.2⟩

/-- No literal of a string holds a line feed or a carriage return. -/
theorem all_isInline_encode (text : List Char) : (Quoted.encode text).all isInline = true :=
  List.all_eq_true.2 fun _ member =>
    isInline_of_class (by decide) (by decide) (Quoted.isRaw_of_mem_encode member)

end Text

/-- No identifier holds a line feed or a carriage return. -/
theorem Identifier.all_isInline (name : Identifier) : name.chars.all isInline = true :=
  List.all_eq_true.2 fun _ member =>
    isInline_of_class (by decide) (by decide) (Name.isRest_of_mem name.valid member)

namespace Text

/-- Up to a firm character a declared name is carried over, with what stands around it. -/
theorem settled_named {margin : List Char} (blank : margin.all isPad = true) (start : Bool)
    {lead name mark : List Char} (plain : lead.all isPlain = true)
    (inline : name.all isInline = true) (plainMark : mark.all isPlain = true) {last : Char}
    (firm : isFirm last = true) (inside : isLineBreak last = false) (rest : List Char) :
    settled margin start (lead ++ name ++ mark ++ last :: rest) =
      (if start then margin else []) ++ lead ++ carried margin name ++ mark ++
        last :: settled margin false rest := by
  have line : (lead ++ name ++ mark).all isInline = true := by
    rw [List.all_append, List.all_append, all_isInline_of_all_isPlain plain, inline,
      all_isInline_of_all_isPlain plainMark]
    rfl
  rw [settled_inline blank line firm inside]
  simp only [carried_append, carried_of_all_isPlain blank plain,
    carried_of_all_isPlain blank plainMark, carried_singleton firm inside, List.append_assoc,
    List.cons_append, List.nil_append]

/-- Behind an assignment, and through it, a text is settled by itself. -/
theorem settled_assignment {margin : List Char} (blank : margin.all isPad = true) (start : Bool)
    {lead : List Char} (plain : lead.all isPlain = true) (name : Identifier)
    (text : List Char) {stop : Char} (firm : isFirm stop = true) (rest : List Char) :
    settled margin start
        (lead ++ name.chars ++ " = ".toList ++ Quoted.encode text ++ stop :: rest) =
      (if start then margin else []) ++ lead ++ carried margin name.chars ++ " = ".toList ++
        carried margin (Quoted.encode text) ++
          stop :: settled margin (isLineBreak stop) rest := by
  -- The closing quote is firm and ends no line, so the assignment is settled up to it at once.
  obtain ⟨content, quote, same, closes, inside⟩ : ∃ content quote,
      Quoted.encode text = content ++ [quote] ∧ isFirm quote = true ∧
        isLineBreak quote = false := by
    rw [Quoted.encode]
    split
    · exact ⟨'\'' :: Quoted.single text, '\'', rfl, by decide, by decide⟩
    · exact ⟨'"' :: text.flatMap Quoted.escaped, '"', rfl, by decide, by decide⟩
  have inline : (lead ++ name.chars ++ " = ".toList ++ content).all isInline = true := by
    have literal := all_isInline_encode text
    rw [same, List.all_append, Bool.and_eq_true] at literal
    rw [List.all_append, List.all_append, List.all_append, all_isInline_of_all_isPlain plain,
      name.all_isInline, literal.1]
    rfl
  have equals : carried margin " = ".toList = " = ".toList :=
    carried_of_all_isPlain blank (by decide)
  calc
    _ = settled margin start
          ((lead ++ name.chars ++ " = ".toList ++ content) ++ quote :: (stop :: rest)) := by
        rw [same]
        simp only [List.append_assoc, List.cons_append, List.nil_append]
    _ = _ := by
        rw [settled_inline blank inline closes inside, settled_cons firm, List.append_assoc,
          List.append_assoc _ content, ← same]
        simp only [carried_append, carried_of_all_isPlain blank plain, equals, List.append_assoc]

end Text

end PhpDecl
