/-!
# Quoted strings

A text is written in single quotes when every character of it may stand raw there, and in
double quotes, with escapes, when it holds a control character. Between single quotes only a
quote is escaped, and a backslash that would otherwise escape what follows it.
-/

namespace PhpDecl.Text.Quoted

/-- The characters that stand raw in a quoted string: the tab, and everything but the control
characters of ASCII and of its upper half. -/
def isRaw (c : Char) : Bool :=
  let n := c.toNat
  n == 9 || (0x20 ≤ n && n ≤ 0x7e) || 0xa0 ≤ n

def single : List Char → List Char
  | [] => []
  | '\'' :: rest => '\\' :: '\'' :: single rest
  | '\\' :: rest =>
      match rest with
      | [] => ['\\', '\\']
      | next :: _ =>
          if next == '\'' || next == '\\' then '\\' :: '\\' :: single rest
          else '\\' :: single rest
  | c :: rest => c :: single rest

def hex (n : Nat) : List Char := Nat.toDigits 16 n

def hexByte (n : Nat) : List Char := hex (n / 16) ++ hex (n % 16)

def escaped (c : Char) : List Char :=
  if c == '\\' then ['\\', '\\']
  else if c == '\r' then ['\\', 'r']
  else if c == '\n' then ['\\', 'n']
  else if c == '\t' then ['\\', 't']
  else if c == '$' then ['\\', '$']
  else if c == '"' then ['\\', '"']
  else if c.toNat < 0x20 || c.toNat == 0x7f then '\\' :: 'x' :: hexByte c.toNat
  else if 0x80 ≤ c.toNat && c.toNat < 0xa0 then
    ['\\', 'u', '\x7b'] ++ hex c.toNat ++ ['\x7d']
  else [c]

/-- The quoted form of a text. -/
def encode (text : List Char) : List Char :=
  if text.all isRaw then '\'' :: single text ++ ['\'']
  else '"' :: text.flatMap escaped ++ ['"']

end PhpDecl.Text.Quoted
