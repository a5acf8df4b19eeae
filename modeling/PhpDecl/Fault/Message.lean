import PhpDecl.Store.Shown

/-!
# The wording of faults
-/

namespace PhpDecl

def DumpFault.message : DumpFault → String
  | .tooDeep => "Nesting level too deep or recursive dependency."
  | .unsupported type => "Cannot dump value of type " ++ type.label ++ "."
  | .tooLong most =>
      "Exceeds the limit (" ++ toString most ++ " digits) for integer string conversion; " ++
        "use sys.set_int_max_str_digits() to increase the limit"

def Problem.message : Problem → String
  | .missing => "Field required"
  | .noField label => "Object has no attribute '" ++ label ++ "'"
  | .notText => "Input should be a valid string"
  | .undecodableText =>
      "Input should be a valid string, unable to parse raw data as a unicode string"
  | .notFlag => "Input should be a valid boolean"
  | .unclearFlag => "Input should be a valid boolean, unable to interpret input"
  | .notVisibility => "Input should be 'public', 'protected' or 'private'"
  | .notName text => "Value error, Value '" ++ text ++ "' is not valid name."
  | .notDumpable fault => "Value error, " ++ fault.message
  | .notDict => "Input should be a valid dictionary"
  | .notParameter => "Input should be a valid dictionary or instance of Parameter"

/-- How values are refused to be put one behind the other. -/
def joinRefusal (left right : TypeTag) : String :=
  match left with
  | .text | .kind => "can only concatenate str (not \"" ++ right.label ++ "\") to str"
  | .list | .tuple =>
      "can only concatenate " ++ left.label ++ " (not \"" ++ right.label ++ "\") to " ++ left.label
  | .bytes => "can't concat " ++ right.label ++ " to bytes"
  | _ =>
      "unsupported operand type(s) for +: '" ++ left.label ++ "' and '" ++ right.label ++ "'"

/-- What a message calls an item that stands for a key and its value. -/
def pairLabel (position : Nat) : String :=
  "dictionary update sequence element #" ++ toString position

def NameRole.label : NameRole → String
  | .declaration => "class name"
  | .member => "member name"
  | .type => "namespace-qualified class name"
  | .scope => "name"
  | .use => "class name"
  | .useAlias => "alias"

def ListedMember.label : ListedMember → String
  | .property => "Property"
  | .method => "Method"

namespace Store

/-- A step of a path. A key is a text, or a number, or shown by its structure where it can be
shown. -/
def stepText (store : Store) : PathStep → String
  | .field label => label
  | .key (.atom (.word w)) => w.toText
  | .key (.atom (.bool b)) => if b then "1" else "0"
  | .key value =>
      if (store.exceeded? value).isNone then String.ofList (store.structureOf value)
      else "<unprintable " ++ (store.typeOf value).label ++ " object>"
  | .keyItself => "[key]"

/-- What is wrong with a field, behind the path to it. -/
def errorText (store : Store) (error : FieldError) : String :=
  String.intercalate "." (error.path.map store.stepText) ++ ": " ++ error.problem.message

/-- The bound that an integer goes beyond which is the fault, or stands in the wording of it. -/
def tooLong? (store : Store) : Fault → Option Nat
  | .notDumpable (.tooLong most) => some most
  | fault => fault.quoted?.bind store.exceeded?

/-- What is said of a fault where all that is shown can be. -/
def wording (store : Store) : Fault → String
  | .invalidName role value =>
      "Value '" ++ String.ofList (store.textOf value) ++ "' is not valid " ++ role.label ++ "."
  | .notIdentifier value =>
      "Value '" ++ String.ofList (store.textOf value) ++ "' is not valid name."
  | .aliasTaken nick existing name =>
      "Alias '" ++ nick.shown ++ "' used already for '" ++ existing ++ "', cannot use for '" ++
        name ++ "'."
  | .notKind => "Argument must be class|interface|trait."
  | .notNames => "Argument must be string or string[]."
  | .notNameList => "Argument must be string[]."
  | .loneResolution => "Resolutions must be string[], not a single string."
  | .notResolution type => "Trait resolution must be string, got " ++ type.label ++ "."
  | .notConstants => "Argument must be Constant[] or a mapping of names to values."
  | .notMember expected type =>
      "Argument must be " ++ expected.label ++ "[], got " ++ type.label ++ "."
  | .notDumpable fault => fault.message
  | .notIterable type => "'" ++ type.label ++ "' object is not iterable"
  | .unsized type => "object of type '" ++ type.label ++ "' has no len()"
  | .notJoined left right => joinRefusal left right
  | .notKey type => "unhashable type: '" ++ type.label ++ "'"
  | .notFollowed type => "cannot create weak reference to '" ++ type.label ++ "' object"
  | .notPair position => "cannot convert " ++ pairLabel position ++ " to a sequence"
  | .notTwo position length =>
      pairLabel position ++ " has length " ++ toString length ++ "; 2 is required"
  | .notFound kind name => kind ++ " '" ++ String.ofList (store.textOf name) ++ "' not found."
  | .fields errors => String.intercalate "\n" (errors.map store.errorText)
  | .unbound variableName => variableName
  | .unanswered => "Unanswered request."

/-- What is said of a fault. Where an integer is too long for that, nothing else is said. -/
def message (store : Store) (fault : Fault) : String :=
  match store.tooLong? fault with
  | some most => (DumpFault.tooLong most).message
  | none => store.wording fault

/-- The type of the error that is met. An integer that is too long is an error of its own. -/
def errorType (store : Store) (fault : Fault) : ErrorType :=
  match store.tooLong? fault with
  | some _ => .value
  | none => fault.errorType

end Store

end PhpDecl
