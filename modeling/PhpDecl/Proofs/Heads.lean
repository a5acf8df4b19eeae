import PhpDecl.Proofs.Names

/-!
# Reading the head of a declaration

The head of a declaration is a line of words. A name may be any of the words that introduce the
parts of the head, so that these are told by where they stand: `Head.ofText?` reads the words from
the left, and a comma behind a name tells that another one follows. The brace tells an anonymous
body from a named declaration. The reader finds what the head was written from
(`Store.read_header`), so two heads are the same only if they say the same.
-/

namespace PhpDecl

open Text

/-- What the head of a declaration says. -/
structure Head where
  abstract : Bool
  final : Bool
  /-- The kind and the name; an anonymous body is written without them. -/
  named : Option (Kind × List Char)
  supertypes : List (List Char)
  interfaces : List (List Char)
  deriving DecidableEq

namespace Head

/-! ## The reader -/

/-- Pass over a keyword, if it comes next. -/
def skip (keyword : String) : List (List Char) → Bool × List (List Char)
  | [] => (false, [])
  | word :: rest => if word = keyword.toList then (true, rest) else (false, word :: rest)

/-- The kind and the name, if a kind comes next. -/
def readNamed : List (List Char) → Option (Kind × List Char) × List (List Char)
  | word :: name :: rest =>
      match Kind.ofKeyword? (String.ofList word) with
      | some kind => (some (kind, name), rest)
      | none => (none, word :: name :: rest)
  | words => (none, words)

/-- The names of a list. A comma behind a name tells that another one follows. -/
def readNames : List (List Char) → Option (List (List Char) × List (List Char))
  | [] => none
  | word :: rest =>
      if word.getLast? = some ',' then
        (readNames rest).map fun (names, rest) => (word.dropLast :: names, rest)
      else some ([word], rest)

/-- The names behind a keyword, if it comes next. -/
def readClause (keyword : String) (words : List (List Char)) :
    Option (List (List Char) × List (List Char)) :=
  match skip keyword words with
  | (true, rest) => readNames rest
  | (false, rest) => some ([], rest)

/-- The end of the head: the brace of a named declaration is on a line of its own. -/
def brace (named : Bool) : List Char := textIf named "\n" ++ ['{', '\n']

/-- Read the words of a head, the last of which is the brace. -/
def ofWords? (words : List (List Char)) : Option Head :=
  let (abstract, words) := skip "abstract" words
  let (final, words) := skip "final" words
  let (named, words) := readNamed words
  (readClause "extends" words).bind fun (supertypes, words) =>
    (readClause "implements" words).bind fun (interfaces, words) =>
      if words = [brace named.isSome] then
        some ⟨abstract, final, named, supertypes, interfaces⟩
      else none

def ofText? (text : List Char) : Option Head := ofWords? (text.splitOn ' ')

/-! ## The words of a head -/

def flagWord (flag : Bool) (keyword : String) : List (List Char) :=
  if flag then [keyword.toList] else []

def namedWords : Option (Kind × List Char) → List (List Char)
  | none => []
  | some (kind, name) => [kind.keyword.toList, name]

/-- The words of a list of names: all but the last one with a comma behind. -/
def listWords : List (List Char) → List (List Char)
  | [] => []
  | [name] => [name]
  | name :: next :: rest => (name ++ [',']) :: listWords (next :: rest)

def clauseWords (keyword : String) (names : List (List Char)) : List (List Char) :=
  if names.isEmpty then [] else keyword.toList :: listWords names

def words (head : Head) : List (List Char) :=
  flagWord head.abstract "abstract" ++ (flagWord head.final "final" ++ (namedWords head.named ++
    (clauseWords "extends" head.supertypes ++ clauseWords "implements" head.interfaces)))

def names (head : Head) : List (List Char) :=
  head.named.toList.map Prod.snd ++ head.supertypes ++ head.interfaces

/-- No name is cut where a text is cut in words, or ends in a comma. -/
def Legible (head : Head) : Prop := ∀ name ∈ head.names, ' ' ∉ name ∧ ',' ∉ name

/-! ## Reading back what was written -/

/-- The first word, if there is one, is among the given ones. -/
def Begins (starts words : List (List Char)) : Prop := ∀ word ∈ words.head?, word ∈ starts

section

variable {starts rest : List (List Char)} {keyword : String} {names : List (List Char)}

theorem Begins.cons (word : List Char) (words : List (List Char)) :
    Begins (word :: starts) (word :: words) := by
  intro first here
  obtain rfl := Option.some.inj here
  exact .head _

theorem Begins.flagWord (begins : Begins starts rest) (flag : Bool) (keyword : String) :
    Begins (keyword.toList :: starts) (flagWord flag keyword ++ rest) := by
  cases flag with
  | false => exact fun word here => .tail _ (begins word here)
  | true => exact .cons _ _

theorem Begins.clauseWords (begins : Begins starts rest) (keyword : String)
    (names : List (List Char)) :
    Begins (keyword.toList :: starts) (clauseWords keyword names ++ rest) := by
  cases names with
  | nil => exact fun word here => .tail _ (begins word here)
  | cons name names => exact .cons _ _

theorem Begins.namedWords (begins : Begins starts rest) (named : Option (Kind × List Char)) :
    Begins ("class".toList :: "interface".toList :: "trait".toList :: starts)
      (namedWords named ++ rest) := by
  match named with
  | none => exact fun word here => .tail _ (.tail _ (.tail _ (begins word here)))
  | some (.classType, _) => exact .cons _ _
  | some (.interface, _) =>
      intro word here
      obtain rfl := Option.some.inj here
      exact .tail _ (.head _)
  | some (.trait, _) =>
      intro word here
      obtain rfl := Option.some.inj here
      exact .tail _ (.tail _ (.head _))

theorem Begins.brace (named : Bool) : Begins [brace true, brace false] [brace named] := by
  intro word here
  obtain rfl := Option.some.inj here
  cases named with
  | false => exact .tail _ (.head _)
  | true => exact .head _

theorem Begins.head?_ne (begins : Begins starts rest) {word : List Char} (other : word ∉ starts) :
    rest.head? ≠ some word :=
  fun here => other (begins word here)

theorem skip_of_head?_ne (other : rest.head? ≠ some keyword.toList) :
    skip keyword rest = (false, rest) := by
  cases rest with
  | nil => rfl
  | cons word rest => exact if_neg fun same => other (congrArg some same)

theorem skip_flagWord (flag : Bool) (other : rest.head? ≠ some keyword.toList) :
    skip keyword (flagWord flag keyword ++ rest) = (flag, rest) := by
  cases flag with
  | false => exact skip_of_head?_ne other
  | true => exact if_pos rfl

theorem readNames_listWords (nonempty : names ≠ []) (plain : ∀ name ∈ names, ',' ∉ name) :
    readNames (listWords names ++ rest) = some (names, rest) := by
  induction names with
  | nil => exact absurd rfl nonempty
  | cons name names ih =>
      cases names with
      | nil =>
          refine if_neg fun comma => ?_
          exact plain name (.head _) (List.mem_of_getLast? comma)
      | cons next others =>
          rw [listWords, List.cons_append, readNames, if_pos List.getLast?_concat,
            ih (List.cons_ne_nil _ _) fun name member => plain name (.tail _ member),
            List.dropLast_concat]
          rfl

theorem readClause_clauseWords (other : rest.head? ≠ some keyword.toList)
    (plain : ∀ name ∈ names, ',' ∉ name) :
    readClause keyword (clauseWords keyword names ++ rest) = some (names, rest) := by
  rw [readClause, clauseWords]
  cases names with
  | nil =>
      rw [if_pos List.isEmpty_nil, List.nil_append, skip_of_head?_ne other]
  | cons name names =>
      rw [if_neg (by simp), List.cons_append, skip, if_pos rfl]
      exact readNames_listWords (List.cons_ne_nil _ _) plain

theorem readNamed_namedWords (named : Option (Kind × List Char))
    (unkind : ∀ word ∈ rest.head?, Kind.ofKeyword? (String.ofList word) = none) :
    readNamed (namedWords named ++ rest) = (named, rest) := by
  cases named with
  | none =>
      cases rest with
      | nil => rfl
      | cons word rest =>
          cases rest with
          | nil => rfl
          | cons next rest =>
              rw [namedWords, List.nil_append, readNamed, unkind word rfl]
  | some both =>
      rw [namedWords, List.cons_append, List.cons_append, readNamed, String.ofList_toList,
        Kind.ofKeyword?_keyword]
      rfl

end

/-- The words are read from the left, whatever the names are: what comes next never begins with the
keyword of a part that was left out. -/
theorem ofWords?_words (head : Head) (plain : ∀ name ∈ head.names, ',' ∉ name) :
    ofWords? (head.words ++ [brace head.named.isSome]) = some head := by
  obtain ⟨abstract, final, named, supertypes, interfaces⟩ := head
  have fourth := Begins.brace named.isSome
  have third := fourth.clauseWords "implements" interfaces
  have second := third.clauseWords "extends" supertypes
  have first := second.namedWords named
  have readAbstract := skip_flagWord abstract
    ((first.flagWord final "final").head?_ne (by decide : "abstract".toList ∉ _))
  have readFinal := skip_flagWord final (first.head?_ne (by decide : "final".toList ∉ _))
  have unkind : ∀ word ∈ ["extends".toList, "implements".toList, brace true, brace false],
      Kind.ofKeyword? (String.ofList word) = none := by
    decide
  have readName := readNamed_namedWords named fun word here => unkind word (second word here)
  have readSupertypes := readClause_clauseWords (third.head?_ne (by decide : "extends".toList ∉ _))
    fun name member => plain name (List.mem_append_left _ (List.mem_append_right _ member))
  have readInterfaces := readClause_clauseWords
    (fourth.head?_ne (by decide : "implements".toList ∉ _))
    fun name member => plain name (List.mem_append_right _ member)
  simp only [words, List.append_assoc, ofWords?, readAbstract, readFinal, readName, readSupertypes,
    readInterfaces, Option.bind_some, if_pos]

/-! ## The text of a head -/

/-- The head as it is written: each word with a blank behind, and the brace. -/
def text (head : Head) : List Char := head.words.flatMap (· ++ [' ']) ++ brace head.named.isSome

theorem splitOn_flatMap {words : List (List Char)} (uncut : ∀ word ∈ words, ' ' ∉ word)
    {last : List Char} (whole : ' ' ∉ last) :
    (words.flatMap (· ++ [' ']) ++ last).splitOn ' ' = words ++ [last] := by
  induction words with
  | nil => exact List.splitOn_eq_singleton whole
  | cons word words ih =>
      rw [List.flatMap_cons, List.append_assoc, List.append_assoc, List.singleton_append,
        List.splitOn_append_cons_self_of_not_mem (uncut word (.head _)),
        ih fun word member => uncut word (.tail _ member), List.cons_append]

theorem of_mem_listWords {names : List (List Char)} {word : List Char}
    (member : word ∈ listWords names) : ∃ name ∈ names, word = name ∨ word = name ++ [','] := by
  induction names with
  | nil => cases member
  | cons name names ih =>
      cases names with
      | nil => exact ⟨name, .head _, .inl (List.mem_singleton.1 member)⟩
      | cons next rest =>
          rcases List.mem_cons.1 member with rfl | later
          · exact ⟨name, .head _, .inr rfl⟩
          · obtain ⟨name, inside, same⟩ := ih later
            exact ⟨name, .tail _ inside, same⟩

section

variable {keyword : String} {names : List (List Char)} {word : List Char}

theorem uncut_flagWord {flag : Bool} (uncut : ' ' ∉ keyword.toList)
    (member : word ∈ flagWord flag keyword) : ' ' ∉ word := by
  cases flag with
  | false => cases member
  | true =>
      obtain rfl := List.mem_singleton.1 member
      exact uncut

theorem uncut_clauseWords (uncut : ' ' ∉ keyword.toList) (whole : ∀ name ∈ names, ' ' ∉ name)
    (member : word ∈ clauseWords keyword names) : ' ' ∉ word := by
  rw [clauseWords] at member
  split at member
  · cases member
  · rcases List.mem_cons.1 member with rfl | listed
    · exact uncut
    · obtain ⟨name, inside, rfl | rfl⟩ := of_mem_listWords listed
      · exact whole _ inside
      · simpa using whole name inside

theorem uncut_words {head : Head} (whole : ∀ name ∈ head.names, ' ' ∉ name) :
    ∀ word ∈ head.words, ' ' ∉ word := by
  obtain ⟨abstract, final, named, supertypes, interfaces⟩ := head
  intro word member
  simp only [words, List.mem_append] at member
  rcases member with flag | flag | name | clause | clause
  · exact uncut_flagWord (by decide) flag
  · exact uncut_flagWord (by decide) flag
  · match named with
    | none => cases name
    | some (kind, written) =>
        rcases List.mem_cons.1 name with rfl | last
        · cases kind <;> decide
        · obtain rfl := List.mem_singleton.1 last
          exact whole _ (.head _)
  · exact uncut_clauseWords (by decide)
      (fun name inside => whole name (List.mem_append_left _ (List.mem_append_right _ inside)))
      clause
  · exact uncut_clauseWords (by decide)
      (fun name inside => whole name (List.mem_append_right _ inside)) clause

theorem ofText?_text {head : Head} (legible : head.Legible) : ofText? head.text = some head := by
  have whole : ' ' ∉ brace head.named.isSome := by cases head.named.isSome <;> decide
  rw [ofText?, text, splitOn_flatMap (uncut_words fun name inside => (legible name inside).1) whole]
  exact ofWords?_words head fun name inside => (legible name inside).2

theorem flatMap_flagWord (flag : Bool) (keyword : String) :
    (flagWord flag keyword).flatMap (· ++ [' ']) = textIf flag (keyword ++ " ") := by
  cases flag with
  | false => rfl
  | true =>
      rw [flagWord, if_pos rfl, textIf, if_pos rfl, String.toList_append, List.flatMap_singleton]
      rfl

theorem flatMap_listWords (nonempty : names ≠ []) :
    (listWords names).flatMap (· ++ [' ']) = joined [',', ' '] names ++ [' '] := by
  induction names with
  | nil => exact absurd rfl nonempty
  | cons name names ih =>
      cases names with
      | nil => exact List.append_nil _
      | cons next rest =>
          rw [listWords, List.flatMap_cons, ih (List.cons_ne_nil _ _),
            joined_cons_of_ne_nil _ _ (List.cons_ne_nil _ _)]
          simp only [List.append_assoc, List.cons_append, List.nil_append]

end

end Head

namespace Declaration

variable {d : PlainDeclaration}

/-- What is said of a declaration in its head. -/
def head (d : PlainDeclaration) : Head where
  abstract := d.abstract
  final := d.final
  named := d.name.map fun name => (d.kind, name.word.chars)
  supertypes := d.supertypes.toList.map (·.word.chars)
  interfaces := d.interfaces.map (·.word.chars)

/-- The name, if there is one, was given as a plain text. -/
def PlainlyNamed (d : PlainDeclaration) : Prop := ∀ name ∈ d.name, ∃ text, name.word = .text text

theorem legible_head (d : PlainDeclaration) : d.head.Legible := by
  have clear {text : List Char} (named : text.all Name.isNameChar = true) :
      ' ' ∉ text ∧ ',' ∉ text :=
    ⟨not_mem_of_all named (by decide), not_mem_of_all named (by decide)⟩
  intro name member
  rw [Head.names, List.mem_append, List.mem_append] at member
  rcases member with (own | supertype) | interface
  · obtain ⟨both, given, rfl⟩ := List.mem_map.1 own
    obtain ⟨label, -, rfl⟩ := Option.map_eq_some_iff.1 (Option.mem_toList.1 given)
    exact clear (Name.all_isNameChar_of_isIdentifier label.valid)
  · obtain ⟨type, -, rfl⟩ := List.mem_map.1 supertype
    exact clear (Name.all_isNameChar_of_isTypeName type.valid)
  · obtain ⟨type, -, rfl⟩ := List.mem_map.1 interface
    exact clear (Name.all_isNameChar_of_isTypeName type.valid)

theorem nameClause_full (keyword : String) (names : List TypeName) :
    nameClause .full keyword names =
      (Head.clauseWords keyword (names.map (·.word.chars))).flatMap (· ++ [' ']) := by
  rw [nameClause, Head.clauseWords, List.isEmpty_map]
  split
  · rfl
  next nonempty =>
    rw [List.flatMap_cons, Head.flatMap_listWords (by simpa using nonempty), nameList]
    exact List.append_assoc ..

theorem header_full_eq_text (plain : d.PlainlyNamed) : d.header .full = d.head.text := by
  simp only [header, nameClause_full, Head.text, Head.words, Head.brace, List.flatMap_append,
    Head.flatMap_flagWord, List.append_assoc, head]
  cases given : d.name with
  | none => rfl
  | some name =>
      obtain ⟨text, written⟩ := plain name given
      simp [Head.namedWords, Word.shown, Word.chars, Word.toText, written]

end Declaration

namespace Store

/-- The head of a declaration that was given its name as a text can be read back: whether it is
abstract and final, its kind and its name if it has one, and what it extends and implements, in
order. So the heads of two declarations are the same just when all of this is. -/
theorem read_header {store : Store} {h : Handle .classType} (plain : (store.plain h).PlainlyNamed) :
    Head.ofText? ((store.plain h).header .full) = some (store.plain h).head ∧
      ∀ (other : Store) (k : Handle .classType), (other.plain k).PlainlyNamed →
        ((store.plain h).header .full = (other.plain k).header .full ↔
          (store.plain h).head = (other.plain k).head) := by
  have read : Head.ofText? ((store.plain h).header .full) = some (store.plain h).head := by
    rw [Declaration.header_full_eq_text plain]
    exact Head.ofText?_text (store.plain h).legible_head
  refine ⟨read, fun other k named => ?_⟩
  rw [Declaration.header_full_eq_text named]
  constructor
  · intro same
    rw [same, Head.ofText?_text (other.plain k).legible_head] at read
    exact (Option.some.inj read).symm
  · intro same
    rw [Declaration.header_full_eq_text plain, same]

end Store

namespace Session

/-- A session with an interface of which all names are keywords. -/
def keyworded : Session :=
  start.after [⟨.newClass (.atom (.word (.text "extends"))) none, some "shape", .prompt⟩,
    ⟨.ask "shape" (some .setType) [.atom (.word (.text "interface"))], none, .prompt⟩,
    ⟨.ask "shape" (some .setAbstract) [], none, .prompt⟩,
    ⟨.ask "shape" (some .setExtends)
      [.list [.atom (.word (.text "implements")), .atom (.word (.text "final"))]], none, .prompt⟩,
    ⟨.ask "shape" (some .addImplement) [.atom (.word (.text "abstract"))], none, .prompt⟩]

/-- Every name is read as a name, though elsewhere each of them introduces a part of the head. -/
theorem read_header_keyworded :
    (keyworded.store.plain ⟨0⟩).PlainlyNamed ∧
      (keyworded.store.plain ⟨0⟩).header .full =
        "abstract interface extends extends implements, final implements abstract \n\x7b\n".toList ∧
      Head.ofText? ((keyworded.store.plain ⟨0⟩).header .full) =
        some ⟨true, false, some (.interface, "extends".toList),
          ["implements".toList, "final".toList], ["abstract".toList]⟩ := by
  have plain : (keyworded.store.plain ⟨0⟩).PlainlyNamed := by
    have name : (keyworded.store.plain ⟨0⟩).name = some ⟨.text "extends", by decide⟩ := by
      decide +kernel
    intro label given
    cases name.symm.trans given
    exact ⟨_, rfl⟩
  have said : (keyworded.store.plain ⟨0⟩).head =
      ⟨true, false, some (.interface, "extends".toList), ["implements".toList, "final".toList],
        ["abstract".toList]⟩ := by
    decide +kernel
  exact ⟨plain, by decide +kernel, (Store.read_header plain).1.trans (congrArg some said)⟩

end Session

end PhpDecl
