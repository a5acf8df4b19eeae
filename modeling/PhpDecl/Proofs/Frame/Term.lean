import PhpDecl.Proofs.Frame
import PhpDecl.Session.Term

/-!
# Terms leave declarations alone

Evaluating a term fills containers and adds new things to the store. It touches no declaration, and
keeps every property that looks at nothing else.
-/

namespace PhpDecl

/-- A property of stores that is kept when containers are others, and when there are new things. -/
class Spelled (P : Store → Prop) : Prop where
  spell : ∀ {store : Store} {nodes : Graph} {tokens : Nat}, P store →
    P { store with nodes, tokens }

instance {Q : Arena .classType ClassObject → Prop} : Spelled (Op.OnClasses Q) :=
  ⟨fun kept => kept⟩

instance {P : Store → Prop} [Spelled P] : Op.Growing P :=
  ⟨fun kept _ => Spelled.spell kept⟩

/-- The property holds after an evaluation, whatever names it knows. -/
def Evaluation.Keeps {α : Type} (P : Store → Prop) (evaluation : Evaluation α) : Prop :=
  ∀ names, Op.Keeps P (evaluation names)

namespace Evaluation.Keeps

variable {α β : Type} {P : Store → Prop}

theorem pure (a : α) : Evaluation.Keeps P (pure a) := fun _ => Op.Keeps.pure _

theorem bind {first : Evaluation α} {next : α → Evaluation β} (kept : Evaluation.Keeps P first)
    (others : ∀ a, Evaluation.Keeps P (next a)) : Evaluation.Keeps P (first >>= next) :=
  fun names => Op.Keeps.bind (kept names) fun result => others result.1 result.2

theorem lift {op : Op α} (kept : Op.Keeps P op) :
    Evaluation.Keeps P (liftM op : Evaluation α) :=
  fun _ => Op.Keeps.bind kept fun _ => Op.Keeps.pure _

theorem get {next : Store → Evaluation β}
    (others : ∀ store, P store → Evaluation.Keeps P (next store)) :
    Evaluation.Keeps P (getThe Store >>= next) :=
  fun names store kept => others store kept names store kept

theorem names {next : Names → Evaluation β} (others : ∀ names, Evaluation.Keeps P (next names)) :
    Evaluation.Keeps P (getThe Names >>= next) := fun names => others names names

theorem addName (change : Names → Names) : Evaluation.Keeps P (modify change) :=
  fun _ => Op.Keeps.pure _

theorem modify {change : Store → Store} (step : ∀ store, P store → P (change store)) :
    Evaluation.Keeps P (modifyThe Store change) := fun _ => step

variable [Spelled P]

theorem reserve (name : String) (empty : Node) : Evaluation.Keeps P (reserve name empty) :=
  get fun _ _ => bind (lift (Op.Keeps.newNode empty)) fun _ => bind (addName _) fun _ => pure _

theorem fill (h : Handle .node) (node : Node) : Evaluation.Keeps P (fill h node) :=
  bind (modify fun _ kept => Spelled.spell kept) fun _ => pure _

theorem newSerial : Evaluation.Keeps P newSerial :=
  get fun _ kept => bind (lift (Op.Keeps.set (Spelled.spell kept))) fun _ => pure _

theorem ofAtom (a : Atom) : Evaluation.Keeps P (ofAtom a) := by
  cases a with
  | float x =>
      simp only [Evaluation.ofAtom]
      split
      · exact bind newSerial fun _ => pure _
      · exact pure _
  | _ => exact pure _

end Evaluation.Keeps

theorem Op.Keeps.findName {P : Store → Prop} (names : Names) (name : String) :
    Op.Keeps P (names.find name) := by
  unfold Names.find
  split
  · exact pure _
  · exact throw _

namespace Term

open Evaluation.Keeps

variable {P : Store → Prop}

mutual

theorem eval_keeps [Spelled P] (bindings : Names) :
    ∀ term : Term, Evaluation.Keeps P (term.eval bindings)
  | .atom a => ofAtom a
  | .bytes _ => pure _
  | .token => bind newSerial fun _ => pure _
  | .list items => bind (evalAll_keeps bindings items) fun _ => lift (Op.Keeps.newNode _)
  | .tuple items => bind (evalAll_keeps bindings items) fun _ => lift (Op.Keeps.newNode _)
  | .set items => bind (evalKeys_keeps bindings items) fun _ => get fun _ _ =>
      lift (Op.Keeps.newNode _)
  | .dict entries => bind (evalEntries_keeps bindings entries) fun _ => get fun _ _ =>
      lift (Op.Keeps.newNode _)
  | .namedList name items => bind (reserve name _) fun h =>
      bind (evalAll_keeps bindings items) fun _ => fill h _
  | .namedDict name entries => bind (reserve name _) fun h =>
      bind (evalEntries_keeps bindings entries) fun _ => get fun _ _ => fill h _
  | .named name => names fun names => lift (Op.Keeps.findName names name)
  | .bound name => lift (Op.Keeps.findName bindings name)

theorem evalAll_keeps [Spelled P] (bindings : Names) :
    ∀ items : List Term, Evaluation.Keeps P (evalAll bindings items)
  | [] => pure _
  | item :: rest => bind (eval_keeps bindings item) fun _ =>
      bind (evalAll_keeps bindings rest) fun _ => pure _

theorem evalKeys_keeps [Spelled P] (bindings : Names) :
    ∀ items : List Term, Evaluation.Keeps P (evalKeys bindings items)
  | [] => pure _
  | item :: rest => bind (eval_keeps bindings item) fun _ =>
      bind (lift (Op.Keeps.checkKey _)) fun _ =>
        bind (evalKeys_keeps bindings rest) fun _ => pure _

theorem evalEntries_keeps [Spelled P] (bindings : Names) :
    ∀ entries : List (Term × Term), Evaluation.Keeps P (evalEntries bindings entries)
  | [] => pure _
  | (key, item) :: rest => bind (eval_keeps bindings key) fun _ =>
      bind (eval_keeps bindings item) fun _ => bind (lift (Op.Keeps.checkKey _)) fun _ =>
        bind (evalEntries_keeps bindings rest) fun _ => pure _

end

end Term

end PhpDecl
