import PhpDecl.Text.Blank

/-!
# The normal form of generated code

In the normal form lines end in a line feed, no control character stands but tab and line
feed, no line ends in a space or a tab, and no empty line stands at either end.
`normalize` reaches it in four passes, whose order matters: each may uncover work for the next.
-/

namespace PhpDecl.Text

/-- Write every carriage return, alone or before a line feed, as one line feed. -/
def unifyBreaks : List Char → List Char
  | [] => []
  | '\r' :: '\n' :: rest => '\n' :: unifyBreaks rest
  | c :: rest => (if c == '\r' then '\n' else c) :: unifyBreaks rest

/-- The control characters that generated code does not hold: those of ASCII but for the tab
and the line feed. -/
def isStrayControl (c : Char) : Bool :=
  let n := c.toNat
  n ≤ 8 || (0x0b ≤ n && n ≤ 0x1f) || n == 0x7f

def isPad (c : Char) : Bool := c == ' ' || c == '\t'

/-- Remove the spaces and tabs that stand at the end of a line. -/
def trimLineEnds : List Char → List Char
  | [] => []
  | c :: rest =>
      let kept := trimLineEnds rest
      if isPad c && (kept.isEmpty || kept.head? == some '\n') then kept else c :: kept

def trimBreaks (text : List Char) : List Char :=
  dropEndWhile (· == '\n') (text.dropWhile (· == '\n'))

/-- Bring a text into normal form. -/
def normalize (text : List Char) : List Char :=
  trimBreaks (trimLineEnds ((unifyBreaks text).filter (!isStrayControl ·)))

end PhpDecl.Text
