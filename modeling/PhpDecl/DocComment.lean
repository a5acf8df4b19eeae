import PhpDecl.Text.Blank

/-!
# Documentation comments

A comment is written on one line when its text holds no line feed, and as a block with a star
before every line when it does. A blank comment is not written at all.
-/

namespace PhpDecl.DocComment

open Text

/-- Write a star at the start of every line that follows a line feed. -/
def starred : List Char → List Char
  | [] => []
  | c :: rest => if c == '\n' then "\n * ".toList ++ starred rest else c :: starred rest

/-- The comment block that holds a text, followed by a line feed. -/
def render (content : List Char) : List Char :=
  let kept := trim content
  if kept.isEmpty then []
  else if content.contains '\n' then
    starred ("/**\n".toList ++ kept) ++ "\n */\n".toList
  else "/** ".toList ++ kept ++ " */\n".toList

end PhpDecl.DocComment
