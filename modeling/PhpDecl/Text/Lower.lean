import PhpDecl.Text.CaseTable

/-!
# Lower case

The lower case of a text, by the full mapping of Unicode. Nearly every character maps on its
own to one character. Two do not: the dotted capital I becomes an i and a combining dot, and a
capital sigma at the end of a word becomes the final small sigma.
-/

namespace PhpDecl.Text

def lowerChar (c : Char) : List Char :=
  -- The dotted capital I is the one character with a lower case of two.
  if c.toNat == 0x130 then ['i', Char.ofNat 0x307]
  else
    match lowerRanges.find? (·.contains c) with
    | some range => [Char.ofNat (c.toNat + range.shift).toNat]
    | none => [c]

/-- Whether a cased character comes next, case-ignorable ones passed over. -/
def casedNext : List Char → Bool
  | [] => false
  | c :: rest => if inRanges caseIgnorableRanges c then casedNext rest else inRanges casedRanges c

/-- The lower case of the rest of a text, where `afterCased` tells whether a cased character
stands before it, case-ignorable ones passed over. -/
def lowerAfter : Bool → List Char → List Char
  | _, [] => []
  | afterCased, c :: rest =>
      let lowered :=
        -- A sigma at the end of a word has a form of its own.
        if c.toNat == 0x3a3 then
          [Char.ofNat (if afterCased && !casedNext rest then 0x3c2 else 0x3c3)]
        else lowerChar c
      let cased :=
        if inRanges caseIgnorableRanges c then afterCased else inRanges casedRanges c
      lowered ++ lowerAfter cased rest

def lower (text : List Char) : List Char := lowerAfter false text

end PhpDecl.Text
