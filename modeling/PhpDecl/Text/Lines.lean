import PhpDecl.Layout

/-!
# Lines and their indentation

A text is cut into lines at eleven kinds of line break, of which a carriage return followed by
a line feed is one break of two characters. Every line keeps its break, so that writing the
lines one after the other gives the text back (`flatMap_text_split`).
-/

namespace PhpDecl.Text

/-- The characters that end a line. -/
def isLineBreak (c : Char) : Bool :=
  let n := c.toNat
  (10 ≤ n && n ≤ 13) || (0x1c ≤ n && n ≤ 0x1e) || n == 0x85 || n == 0x2028 || n == 0x2029

/-- A line: its characters, and the break that ends it, which only the last line of a text may
lack. -/
structure Line where
  body : List Char
  /-- The break, or nothing. -/
  ending : List Char
  deriving DecidableEq, Repr

namespace Line

/-- The characters of the line, its break included. -/
def text (line : Line) : List Char := line.body ++ line.ending

def split : List Char → List Line
  | [] => []
  | '\r' :: '\n' :: rest => ⟨[], ['\r', '\n']⟩ :: split rest
  | c :: rest =>
      if isLineBreak c then ⟨[], [c]⟩ :: split rest
      else
        match split rest with
        | [] => [⟨[c], []⟩]
        | line :: lines => ⟨c :: line.body, line.ending⟩ :: lines

/-- A line of nothing but carriage returns and line feeds. -/
def isEmpty (line : Line) : Bool := line.text.all fun c => c == '\r' || c == '\n'

/-- The line behind a margin; an empty line stays as it is. -/
def indented (margin : List Char) (line : Line) : List Char :=
  if line.isEmpty then line.text else margin ++ line.text

theorem flatMap_text_split (text : List Char) : (split text).flatMap Line.text = text := by
  fun_induction split text with
  | case1 => rfl
  | case2 rest ih => simp [Line.text, ih]
  | case3 c rest _ _ ih => simp [Line.text, ih]
  | case4 c rest _ _ none ih =>
      rw [none] at ih
      simp [Line.text, ← ih]
  | case5 c rest _ _ line lines some ih =>
      rw [some] at ih
      simp [Line.text, ← ih]

end Line

/-- Put a margin before every line that is not empty. -/
def indentBy (margin text : List Char) : List Char :=
  (Line.split text).flatMap (Line.indented margin)

/-- Indent every line that is not empty by a number of levels; a level below one indents by
nothing. The margin is built only where a line needs it, for the number may be huge. -/
def indent (layout : Layout) (level : Int) (text : List Char) : List Char :=
  if (Line.split text).all Line.isEmpty then text
  else indentBy (layout.margin level.toNat) text

/-- Without a margin a text stays as it is. -/
@[simp] theorem indentBy_nil (text : List Char) : indentBy [] text = text := by
  have h : Line.indented [] = Line.text := by
    funext line
    simp [Line.indented]
  rw [indentBy, h, Line.flatMap_text_split]

/-- Empty lines stay as they are, whatever the margin. -/
theorem indentBy_of_empty {margin text : List Char}
    (h : (Line.split text).all Line.isEmpty = true) : indentBy margin text = text := by
  have kept : (Line.split text).map (Line.indented margin) = (Line.split text).map Line.text :=
    List.map_congr_left fun line member => if_pos (List.all_eq_true.1 h line member)
  rw [indentBy, List.flatMap_def, kept, ← List.flatMap_def, Line.flatMap_text_split]

/-- Indenting puts the margin of the level before every line that is not empty. -/
theorem indent_eq_indentBy (layout : Layout) (level : Int) (text : List Char) :
    indent layout level text = indentBy (layout.margin level.toNat) text := by
  rw [indent]
  split
  · next empty => rw [indentBy_of_empty empty]
  · rfl

end PhpDecl.Text
