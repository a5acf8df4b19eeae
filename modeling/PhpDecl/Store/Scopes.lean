import PhpDecl.Store

/-!
# Operations on namespaces and shorteners

Namespaces are made and given imports; an import that is refused changes nothing. Both
namespaces and shorteners write names short.
-/

namespace PhpDecl

namespace Op

def newScope (name : String) : Op (Handle .scope) := do
  match Namespace.ofName? name with
  | some ns =>
      let store ← get
      set { store with scopes := store.scopes.push ns }
      return store.scopes.next
  | none => throw (.invalidName .scope (.text name))

/-- Make a shortener from a table, of which a later line counts more. -/
def newShortener (table : List (String × String)) : Op Value := do
  let store ← get
  set { store with shorteners := store.shorteners.push (.ofList table) }
  return .shortener store.shorteners.next

def ofUse {α : Type} : Except Namespace.UseFault α → Op α
  | .ok a => pure a
  | .error fault => throw (.ofUse fault)

/-- Import a name into a namespace. An alias that is no text is refused as a malformed one, and
so after a malformed name. -/
def addUse (h : Handle .scope) (name : String) (nick : Value) : Op Unit := do
  let ns := (← get).scopes.get h
  let imported ← match nick with
    | .atom .null => ofUse (ns.addUse name none)
    | .atom (.word nick) => ofUse (ns.addUse name (some nick))
    | _ => do
        let _ ← ofUse (Namespace.importedName name)
        refuse (.invalidName .useAlias nick)
  modify fun store => { store with scopes := store.scopes.set h imported }

def usesDict (ns : Namespace) : Node :=
  .dict (ns.uses.entries.map fun (nick, name) => (.word nick.word, .text name.text))

/-- Write a name short. What counts as false stays as it is. -/
def shorten (h : Handle .scope) (name : Value) : Op Value := do
  let store ← get
  match name with
  | .atom (.word w) => return .word (.ofChars ((store.scopes.get h).shorten w.chars))
  | _ => if store.truth name then throw .unanswered else return name

/-- Make a namespace, import names under their aliases, and write names short. -/
def shortenIn (name : String) (uses : List (String × Value)) (names : List Value) :
    Op (List Value) := do
  let h ← newScope name
  uses.forM fun use => addUse h use.1 use.2
  names.mapM (shorten h)

def lookUp (h : Handle .shortener) (name : Value) : Op Value := do
  checkKey name
  match name with
  | .atom (.word w) => return .word (Shortener.ofTable ((← get).shorteners.get h) w)
  | _ => return name

end Op

end PhpDecl
