import PhpDecl.Member

/-!
# Declarations

A class, an interface or a trait: its head, the traits it uses, and its members. The structure
is generic in what stands for its two flags, for its comment and for its members, so that the
same declaration may hold them or refer to them; `Declaration.map` passes from one to the other.
-/

namespace PhpDecl

/-- What a declaration extends: one type, as a class does, or a list of them. -/
inductive Supertypes
  | single (name : TypeName)
  | multiple (names : List TypeName)
  deriving DecidableEq

namespace Supertypes

def toList : Supertypes → List TypeName
  | .single name => [name]
  | .multiple names => names

/-- Whether supertypes are the same key: in the same form, with the same names. -/
def sameKey : Supertypes → Supertypes → Bool
  | .single name, .single other => name == other
  | .multiple names, .multiple others => names == others
  | _, _ => false

end Supertypes

/-- A class, an interface or a trait, with flags of type `φ`, a comment of type `γ`, constants of
type `κ`, properties of type `π` and methods of type `μ`. -/
structure Declaration (φ γ κ π μ : Type) where
  /-- The name; a declaration without one is an anonymous body. -/
  name : Option Label
  kind : Kind
  final : φ
  abstract : φ
  comment : γ
  supertypes : Supertypes
  interfaces : List TypeName
  /-- The used traits, each with its directives that settle conflicts. -/
  traits : OrderedMap TypeName (List Word)
  constants : OrderedMap Label κ
  properties : OrderedMap Label π
  methods : OrderedMap Label μ

abbrev PlainDeclaration :=
  Declaration Bool (Option Word) Constant Property (Method Parameter)

namespace Declaration

variable {φ γ κ π μ φ' γ' κ' π' μ' : Type}

/-- An empty class, with both flags and the comment as given. -/
def blank (flag : φ) (comment : γ) : Declaration φ γ κ π μ :=
  ⟨none, .classType, flag, flag, comment, .multiple [], [], .empty, .empty, .empty, .empty⟩

/-- Replace the flags, the comment and the members. -/
def map (f : φ → φ') (g : γ → γ') (c : κ → κ') (p : π → π') (m : μ → μ')
    (d : Declaration φ γ κ π μ) : Declaration φ' γ' κ' π' μ' :=
  { d with
    final := f d.final
    abstract := f d.abstract
    comment := g d.comment
    constants := d.constants.mapValues c
    properties := d.properties.mapValues p
    methods := d.methods.mapValues m }

end Declaration

end PhpDecl
