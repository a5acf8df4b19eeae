import PhpDecl.Layout
import PhpDecl.Literal
import PhpDecl.Text.Join
import PhpDecl.Text.Quoted

/-!
# Writing literals

An array is written on one line when that line holds no line break and is short enough for its
depth, and one entry a line otherwise. An entry is written without its key when the key is the
integer that the reader supplies by itself.

The text of a literal is that of integers of any length. Whether they are too long to be written is
found out before, where a value is spelled out as a literal.
-/

namespace PhpDecl.Literal

def intText (n : Int) : List Char :=
  (if n < 0 then ['-'] else []) ++ Digit.chars (Decimal.digitsOf n.natAbs)

def atomText : Atom → List Char
  | .null => "null".toList
  | .bool b => if b then "true".toList else "false".toList
  | .int n => intText n
  | .float x => x.literal
  | .word w => Text.Quoted.encode w.chars
  | .code text => text.toList

/-- How many columns a level takes from the wrap length. -/
def columnsPerLevel : Int := 4

/-- Whether an array with this one-line inside is written one entry a line. -/
def wraps (layout : Layout) (level : Nat) (line : List Char) : Bool :=
  line.contains '\n' || layout.wrapLength - level * columnsPerLevel ≤ line.length

def arrayText (layout : Layout) (level : Nat) (parts : List (List Char)) : List Char :=
  let line := Text.joined [',', ' '] parts
  if parts.isEmpty then ['[', ']']
  else if wraps layout level line then
    let margin := layout.margin level
    ['[', '\n'] ++ margin ++
      parts.flatMap (fun part => layout.unit ++ part ++ [',', '\n'] ++ margin) ++ [']']
  else '[' :: line ++ [']']

mutual

def textAt (layout : Layout) (level : Nat) : Literal → List Char
  | .atom a => atomText a
  | .list items => arrayText layout level (itemTexts layout (level + 1) items)
  | .tuple items => arrayText layout level (itemTexts layout (level + 1) items)
  | .dict entries => arrayText layout level (entryTexts layout (level + 1) 0 entries)

/-- The texts of the items of a sequence, whose keys the reader supplies. -/
def itemTexts (layout : Layout) (level : Nat) : List Literal → List (List Char)
  | [] => []
  | item :: rest => textAt layout level item :: itemTexts layout level rest

/-- The texts of the entries of a keyed array, where the reader supplies `next` for the first
key if none is written. -/
def entryTexts (layout : Layout) (level : Nat) (next : Int) :
    List (Literal × Literal) → List (List Char)
  | [] => []
  | (key, item) :: rest =>
      (if key.intKey? == some next then textAt layout level item
       else textAt layout level key ++ " => ".toList ++ textAt layout level item) ::
        entryTexts layout level (nextKey next key) rest

end

def text (layout : Layout) (literal : Literal) : List Char := textAt layout 0 literal

end PhpDecl.Literal
