import Mathlib.Data.List.Forall2
import PhpDecl.Value

/-!
# Reading literals

A reader of literal code that knows nothing of how it is written. It cuts the text into tokens,
undoing the escapes of quoted strings on the way, and puts the tokens together on a stack of
open arrays. Spaces, tabs and line breaks between tokens count for nothing, an array may end in
a comma, and an entry without a key gets the next free integer.

`Graph.Denotes` says what a value is for such a reader: sequences are arrays with the keys that
count from zero, and a float is the text that it is written as.
-/

namespace PhpDecl

/-- What a reader makes of a literal. -/
inductive Reading
  | null
  | bool (b : Bool)
  | int (n : Int)
  /-- A float, as it is written. -/
  | float (text : List Char)
  | text (content : List Char)
  /-- The keys and items of an array, in order. -/
  | array (entries : List (Reading × Reading))

namespace Reading

inductive Token
  | opening
  | closing
  | comma
  | arrow
  /-- A quoted string, its escapes undone. -/
  | text (content : List Char)
  /-- A run of letters, digits, signs and points. -/
  | word (letters : List Char)

/-- The characters that may stand between tokens. -/
def isLayout (c : Char) : Bool := c == ' ' || c == '\t' || c == '\n' || c == '\r'

/-- The characters of words. -/
def isWordChar (c : Char) : Bool := c.isAlphanum || c == '+' || c == '-' || c == '.'

/-- Whether a text starts inside a word. -/
def startsInWord : List Char → Bool
  | [] => false
  | c :: _ => isWordChar c

def Token.quote (c : Char) : List Token → List Token
  | .text content :: rest => .text (c :: content) :: rest
  | tokens => tokens

/-- Put a character in front of the word that goes on, or of a word of its own. -/
def Token.spell (c : Char) (goesOn : Bool) : List Token → List Token
  | .word letters :: rest =>
      if goesOn then .word (c :: letters) :: rest else .word [c] :: .word letters :: rest
  | tokens => .word [c] :: tokens

def hexValue? (c : Char) : Option Nat :=
  if '0' ≤ c && c ≤ '9' then some (c.toNat - '0'.toNat)
  else if 'a' ≤ c && c ≤ 'f' then some (c.toNat - 'a'.toNat + 10)
  else if 'A' ≤ c && c ≤ 'F' then some (c.toNat - 'A'.toNat + 10)
  else none

/-- The character of a number below a bound, if it is one. -/
def charBelow? (bound n : Nat) : Option Char :=
  if n < bound ∧ n.isValidChar then some (Char.ofNat n) else none

mutual

/-- The tokens of a text. -/
def tokens : List Char → Option (List Token)
  | [] => some []
  | '[' :: rest => (tokens rest).map (.opening :: ·)
  | ']' :: rest => (tokens rest).map (.closing :: ·)
  | ',' :: rest => (tokens rest).map (.comma :: ·)
  | '=' :: '>' :: rest => (tokens rest).map (.arrow :: ·)
  | '\'' :: rest => inSingle rest
  | '"' :: rest => inDouble rest
  | c :: rest =>
      if isLayout c then tokens rest
      else if isWordChar c then (tokens rest).map (Token.spell c (startsInWord rest))
      else none

/-- The tokens from inside a single-quoted string on, where a backslash escapes a quote and
itself, and stands for itself before anything else. -/
def inSingle : List Char → Option (List Token)
  | [] => none
  | '\'' :: rest => (tokens rest).map (.text [] :: ·)
  | '\\' :: '\'' :: rest => (inSingle rest).map (Token.quote '\'')
  | '\\' :: '\\' :: rest => (inSingle rest).map (Token.quote '\\')
  | c :: rest => (inSingle rest).map (Token.quote c)

/-- The tokens from inside a double-quoted string on. A dollar sign that is not escaped would
start a variable. A byte is a character by itself only below 80. -/
def inDouble : List Char → Option (List Token)
  | [] => none
  | '"' :: rest => (tokens rest).map (.text [] :: ·)
  | '$' :: _ => none
  | '\\' :: '\\' :: rest => (inDouble rest).map (Token.quote '\\')
  | '\\' :: '"' :: rest => (inDouble rest).map (Token.quote '"')
  | '\\' :: '$' :: rest => (inDouble rest).map (Token.quote '$')
  | '\\' :: 'r' :: rest => (inDouble rest).map (Token.quote '\r')
  | '\\' :: 'n' :: rest => (inDouble rest).map (Token.quote '\n')
  | '\\' :: 't' :: rest => (inDouble rest).map (Token.quote '\t')
  | '\\' :: 'x' :: high :: low :: rest => do
      let byte := 16 * (← hexValue? high) + (← hexValue? low)
      return Token.quote (← charBelow? 0x80 byte) (← inDouble rest)
  | '\\' :: 'u' :: '\x7b' :: digit :: rest => do inCodePoint (← hexValue? digit) rest
  | '\\' :: _ => none
  | c :: rest => (inDouble rest).map (Token.quote c)

/-- The tokens from inside the hexadecimal number of a character on, of which the digits read so
far make `n`. -/
def inCodePoint (n : Nat) : List Char → Option (List Token)
  | [] => none
  | '\x7d' :: rest => do return Token.quote (← charBelow? 0x110000 n) (← inDouble rest)
  | digit :: rest => do inCodePoint (16 * n + (← hexValue? digit)) rest

end

/-- The natural number that digits spell. Only zero starts with a zero. -/
def natOf? (digits : List Char) : Option Nat :=
  if digits.isEmpty || !digits.all Char.isDigit || (1 < digits.length && digits.head? == some '0')
  then none
  else some (digits.foldl (fun n c => 10 * n + (c.toNat - '0'.toNat)) 0)

def intOf? : List Char → Option Int
  | '-' :: digits => (natOf? digits).map fun n : Nat => -(n : Int)
  | digits => (natOf? digits).map Int.ofNat

def isExponent : List Char → Bool
  | [] => true
  | 'E' :: sign :: digits =>
      (sign == '+' || sign == '-') && !digits.isEmpty && digits.all Char.isDigit
  | _ => false

/-- Digits, a point, digits, and perhaps an exponent. -/
def isPointed (letters : List Char) : Bool :=
  match letters.dropWhile Char.isDigit with
  | '.' :: rest =>
      !(letters.takeWhile Char.isDigit).isEmpty && !(rest.takeWhile Char.isDigit).isEmpty &&
        isExponent (rest.dropWhile Char.isDigit)
  | _ => false

/-- A word that is a float without a sign. -/
def isUnsignedFloat (letters : List Char) : Bool := letters == "INF".toList || isPointed letters

def isFloat : List Char → Bool
  | '-' :: letters => isUnsignedFloat letters
  | letters => letters == "NAN".toList || isUnsignedFloat letters

def ofWord? (letters : List Char) : Option Reading :=
  if letters == "null".toList then some .null
  else if letters == "true".toList then some (.bool true)
  else if letters == "false".toList then some (.bool false)
  else if isFloat letters then some (.float letters)
  else (intOf? letters).map .int

/-- What has been read of the entry at the end of an open array. -/
inductive Slot
  | vacant
  /-- A value, which is a key if an arrow follows. -/
  | value (item : Reading)
  | keyed (key : Reading)
  | entry (key item : Reading)

/-- An array that is still open: its complete entries, the key that the reader supplies next,
and the entry in the making. -/
structure Frame where
  entries : List (Reading × Reading)
  next : Int
  slot : Slot

namespace Frame

def opened : Frame := ⟨[], 0, .vacant⟩

/-- The key that the reader supplies after an entry with this key. -/
def keyAfter (next : Int) : Reading → Int
  | .int n => max next (n + 1)
  | _ => next

def put (item : Reading) (frame : Frame) : Option Frame :=
  match frame.slot with
  | .vacant => some { frame with slot := .value item }
  | .keyed key => some { frame with slot := .entry key item }
  | _ => none

def add (frame : Frame) (key item : Reading) : Frame :=
  ⟨frame.entries ++ [(key, item)], keyAfter frame.next key, .vacant⟩

def point (frame : Frame) : Option Frame :=
  match frame.slot with
  | .value key => some { frame with slot := .keyed key }
  | _ => none

/-- Complete the entry at the end; a value without a key gets the next one. -/
def complete (frame : Frame) : Option Frame :=
  match frame.slot with
  | .value item => some (frame.add (.int frame.next) item)
  | .entry key item => some (frame.add key item)
  | _ => none

/-- The array that a closing bracket ends. No entry needs to stand behind the last comma. -/
def close (frame : Frame) : Option Reading :=
  match frame.slot with
  | .vacant => some (.array frame.entries)
  | _ => frame.complete.map fun frame => .array frame.entries

end Frame

/-- The state of the reader: the open arrays, the innermost first, or a result. -/
inductive Machine
  | reading (frames : List Frame)
  | finished (result : Reading)

namespace Machine

def change (f : Frame → Option Frame) : Machine → Option Machine
  | .reading (frame :: outer) => (f frame).map fun frame => .reading (frame :: outer)
  | _ => none

/-- Take a value: into the innermost open array, or as the result when none is open. -/
def put (item : Reading) : Machine → Option Machine
  | .reading [] => some (.finished item)
  | machine => machine.change (·.put item)

def accept (machine : Machine) : Token → Option Machine
  | .text content => machine.put (.text content)
  | .word letters => do machine.put (← ofWord? letters)
  | .arrow => machine.change Frame.point
  | .comma => machine.change Frame.complete
  | .opening =>
      match machine with
      | .reading frames => some (.reading (.opened :: frames))
      | .finished _ => none
  | .closing =>
      match machine with
      | .reading (frame :: outer) => do put (← frame.close) (.reading outer)
      | _ => none

/-- The result, if there is one. -/
def result? : Machine → Option Reading
  | .reading _ => none
  | .finished result => some result

end Machine

/-- Read a text that is one literal and nothing more. -/
def ofText? (text : List Char) : Option Reading := do
  let tokens ← tokens text
  (← tokens.foldlM Machine.accept (.reading [])).result?

example : ofText? "[-7 => 'it\\'s', \"\\x0a\",\n\t[],]".toList =
    some (.array [(.int (-7), .text "it's".toList), (.int 0, .text ['\n']),
      (.int 1, .array [])]) := by rfl

def numbered : Int → List Reading → List (Reading × Reading)
  | _, [] => []
  | next, item :: rest => (.int next, item) :: numbered (next + 1) rest

end Reading

open Reading in
/-- What a value is for a reader. Code has no place here, nor has a value that is never
written; a value that holds itself denotes nothing, since a derivation is finite. -/
inductive Graph.Denotes (graph : Graph) : Value → Reading → Prop
  | null : Denotes graph (.atom .null) .null
  | bool (b : Bool) : Denotes graph (.atom (.bool b)) (.bool b)
  | int (n : Int) : Denotes graph (.atom (.int n)) (.int n)
  | float (x : Double) : Denotes graph (.atom (.float x)) (.float x.literal)
  | word (w : Word) : Denotes graph (.atom (.word w)) (.text w.chars)
  | list {h : Handle .node} {items : List Value} {readings : List Reading}
      (content : graph.get h = .list items) (each : List.Forall₂ (Denotes graph) items readings) :
      Denotes graph (.node h) (.array (numbered 0 readings))
  | tuple {h : Handle .node} {items : List Value} {readings : List Reading}
      (content : graph.get h = .tuple items) (each : List.Forall₂ (Denotes graph) items readings) :
      Denotes graph (.node h) (.array (numbered 0 readings))
  | dict {h : Handle .node} {entries : List (Value × Value)} {keys items : List Reading}
      (content : graph.get h = .dict entries)
      (eachKey : List.Forall₂ (Denotes graph) (entries.map Prod.fst) keys)
      (eachItem : List.Forall₂ (Denotes graph) (entries.map Prod.snd) items) :
      Denotes graph (.node h) (.array (keys.zip items))

/-- An atom occurs in a value, as an item or a key at some depth. -/
inductive Graph.Holds (graph : Graph) : Value → Atom → Prop
  | atom (a : Atom) : Holds graph (.atom a) a
  | part {h : Handle .node} {value : Value} {a : Atom} (member : value ∈ (graph.get h).parts)
      (held : Holds graph value a) : Holds graph (.node h) a

end PhpDecl
