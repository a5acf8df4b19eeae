import PhpDecl.Declaration
import PhpDecl.Member.Printer
import PhpDecl.Text.Normal

/-!
# Writing declarations

A declaration is written as its comment, its head, and a body of up to four groups in a fixed
order: used traits, constants, properties, methods. Members keep their order. An anonymous body
ends at its brace; a named declaration ends with a line feed.
-/

namespace PhpDecl.Declaration

open Text

/-- The names of a list, each written short. -/
def nameList (shortener : Shortener) (names : List TypeName) : List Char :=
  joined [',', ' '] (names.map fun name => (shortener name.word).chars)

/-- A clause that uses a trait, in braces when it has directives. -/
def traitClause (shortener : Shortener) (layout : Layout) (use : TypeName × List Word) :
    List Char :=
  let lead := "use ".toList ++ (shortener use.1.word).shown.toList
  if use.2.isEmpty then lead ++ [';']
  else
    lead ++ " \x7b\n".toList ++ layout.unit ++
      joined ([';', '\n'] ++ layout.unit) (use.2.map Word.chars) ++ ";\n\x7d".toList

/-- A list of type names behind the keyword that introduces it; an empty list is not written. -/
def nameClause (shortener : Shortener) (keyword : String) (names : List TypeName) : List Char :=
  if names.isEmpty then []
  else keyword.toList ++ [' '] ++ nameList shortener names ++ [' ']

/-- Whether the declaration holds a name that may be written short. -/
def namesTypes (d : PlainDeclaration) : Bool :=
  !d.supertypes.toList.isEmpty || !d.interfaces.isEmpty || !d.traits.entries.isEmpty ||
    d.methods.values.any Method.namesTypes

/-- The head, up to the line feed behind the opening brace. -/
def header (shortener : Shortener) (d : PlainDeclaration) : List Char :=
  textIf d.abstract "abstract " ++ textIf d.final "final " ++
    (match d.name with
    | none => []
    | some name => d.kind.keyword.toList ++ [' '] ++ name.word.shown.toList ++ [' ']) ++
    nameClause shortener "extends" d.supertypes.toList ++
    nameClause shortener "implements" d.interfaces ++
    textIf d.name.isSome "\n" ++ ['{', '\n']

/-- Put groups one after the other, each behind the separator of the last group written before
it; an empty group is left out. -/
def joinGroups (pending : List Char) : List (List Char × List Char) → List Char
  | [] => []
  | (text, separator) :: rest =>
      if text.isEmpty then joinGroups pending rest
      else pending ++ text ++ joinGroups separator rest

/-- The groups of the body, each with the separator behind it. -/
def groups (shortener : Shortener) (layout : Layout) (d : PlainDeclaration) :
    List (List Char × List Char) :=
  [(joined ['\n'] (d.traits.entries.map (traitClause shortener layout)), ['\n', '\n']),
    (joined ['\n'] (d.constants.values.map (Constant.render layout)), ['\n', '\n']),
    (joined ['\n', '\n'] (d.properties.values.map (Property.render layout)),
      ['\n', '\n', '\n']),
    (joined ['\n', '\n', '\n'] (d.methods.values.map (Method.render shortener layout)),
      ['\n'])]

/-- The body between the braces, not yet indented. -/
def body (shortener : Shortener) (layout : Layout) (d : PlainDeclaration) : List Char :=
  let text := joinGroups [] (d.groups shortener layout)
  if text.isEmpty then [] else text ++ ['\n']

def commentText (d : PlainDeclaration) : List Char :=
  DocComment.render ((d.comment.map Word.chars).getD [] ++ ['\n'])

def render (shortener : Shortener) (layout : Layout) (d : PlainDeclaration) : List Char :=
  -- The comment is normalized with the code, the last line feed is not.
  let code := normalize
    (d.commentText ++ d.header shortener ++ indent layout 1 (d.body shortener layout) ++ ['}'])
  if d.name.isSome then code ++ ['\n'] else code

end PhpDecl.Declaration
