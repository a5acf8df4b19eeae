import PhpDecl.DocComment
import PhpDecl.Literal.Printer
import PhpDecl.Member
import PhpDecl.Namespace
import PhpDecl.Text.Lines

/-!
# Writing members

Each member is written as a fragment of code, with its comment in front: a constant and a
property on a line of their own, a method as its signature and, when it has one, its body.
A parameter list longer than the wrap length is written one parameter a line.
-/

namespace PhpDecl

open Text

/-- A visibility and the space behind it. -/
def Visibility.lead : Option Visibility → List Char
  | none => []
  | some visibility => visibility.keyword.toList ++ [' ']

def Constant.render (layout : Layout) (constant : Constant) : List Char :=
  DocComment.render (charsOf constant.comment) ++
    Visibility.lead constant.visibility ++ "const ".toList ++ constant.name.chars ++
    " = ".toList ++ constant.value.literal.text layout ++ [';']

/-- The declaration of a property; its visibility is public when it has none, and a null value
is not written. -/
def Property.render (layout : Layout) (property : Property) : List Char :=
  DocComment.render (charsOf property.comment) ++
    (property.visibility.getD .publicAccess).keyword.toList ++
    textIf property.static " static" ++ " $".toList ++ property.name.chars ++
    (if property.value.literal.isNull then []
     else " = ".toList ++ property.value.literal.text layout) ++ [';']

namespace Parameter

/-- The type of a parameter and the space behind it. A null default makes the type nullable by
itself. -/
def hint (shortener : Shortener) (parameter : Parameter) : List Char :=
  match parameter.typeHint with
  | none => []
  | some "" => []
  | some type =>
      -- A null default says as much as the mark would.
      let nullDefault := parameter.hasDefaultValue && parameter.defaultValue.literal.isNull
      textIf (parameter.nullable && !nullDefault) "?" ++ shortener.shortenType type ++ [' ']

/-- Whether the type of a parameter is a name that may be written short. -/
def namesType (parameter : Parameter) : Bool := Shortener.isAsked parameter.typeHint

/-- A parameter; a variadic one shows no default. -/
def render (shortener : Shortener) (layout : Layout) (variadic : Bool)
    (parameter : Parameter) : List Char :=
  parameter.hint shortener ++ textIf parameter.reference "&" ++ textIf variadic "..." ++
    '$' :: parameter.name.chars ++
    (if parameter.hasDefaultValue && !variadic then
      " = ".toList ++ parameter.defaultValue.literal.text layout
     else [])

/-- The parameters of a list, of which the last one may be variadic. -/
def renderAll (shortener : Shortener) (layout : Layout) (variadic : Bool) :
    List Parameter → List (List Char)
  | [] => []
  | [last] => [last.render shortener layout variadic]
  | parameter :: rest =>
      parameter.render shortener layout false :: renderAll shortener layout variadic rest

/-- A parameter list in parentheses, from its written parameters. -/
def listText (layout : Layout) (parts : List (List Char)) : List Char :=
  let line := joined [',', ' '] parts
  if layout.wrapLength < line.length then
    ['(', '\n'] ++ layout.unit ++ joined ([',', '\n'] ++ layout.unit) parts ++ ['\n', ')']
  else '(' :: line ++ [')']

end Parameter

namespace Method

def renderParameters (shortener : Shortener) (layout : Layout) (method : Method Parameter) :
    List Char :=
  Parameter.listText layout
    (Parameter.renderAll shortener layout method.variadic method.parameters.values)

def modifiers (method : Method Parameter) : List Char :=
  textIf method.abstract "abstract " ++ textIf method.final "final " ++
    Visibility.lead method.visibility ++ textIf method.static "static "

/-- The return type behind a signature. -/
def returnText (shortener : Shortener) (method : Method Parameter) : List Char :=
  match method.returnType with
  | none => []
  | some "" => []
  | some type =>
      ": ".toList ++ textIf method.returnNullable "?" ++ shortener.shortenType type

/-- Whether the signature holds a name that may be written short. -/
def namesTypes (method : Method Parameter) : Bool :=
  method.parameters.values.any Parameter.namesType || Shortener.isAsked method.returnType

def signature (shortener : Shortener) (layout : Layout) (method : Method Parameter) :
    List Char :=
  DocComment.render (charsOf method.comment ++ ['\n']) ++ method.modifiers ++
    "function ".toList ++ textIf method.returnReference "&" ++ method.name.chars ++
    method.renderParameters shortener layout ++ method.returnText shortener

def bodyText (layout : Layout) (body : List Char) : List Char :=
  indent layout 1 (trimStart (trimEnd body ++ ['\n']))

/-- A method: the signature alone when it has no body, and otherwise the body in braces, which
open on the line of a parameter list that was wrapped. -/
def render (shortener : Shortener) (layout : Layout) (method : Method Parameter) : List Char :=
  let signature := method.signature shortener layout
  if method.hasBody then
    -- A list that was wrapped ends on a line of its own, which the brace shares.
    let wrapped := (method.renderParameters shortener layout).contains '\n'
    signature ++ [if wrapped then ' ' else '\n', '{', '\n'] ++
      bodyText layout (charsOf method.body) ++ ['}']
  else signature ++ [';']

end Method

end PhpDecl
