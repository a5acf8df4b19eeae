import PhpDecl.Proofs.Reachability
import PhpDecl.Proofs.Rendering
import PhpDecl.Proofs.Tidiness.Steps

/-!
# How long a declaration has its namespace

A declaration does not keep the namespace that it was made in. It has it for exactly as long as
variables lead to it, or objects in circles that are not collected yet: at the end of a step the
links to other namespaces are cut (`ended_run`), and a namespace without links that no variable
leads to is out of the reach of every step, so that it is gone for good (`Gone.run`). When circles
are collected is left open: all of this holds for every collector. A declaration that has its
namespace is written with the short names of it, and otherwise with full ones; a shortener that is
given makes the namespace irrelevant.
-/

namespace PhpDecl

namespace Store

variable {store : Store} {watched : Watch} {scope : Handle .scope}

/-! ## What leads to a namespace -/

theorem Leads.leadsOn {value : Value} (leads : store.Leads value (.scope scope)) :
    value.leadsOn = true := by
  obtain rfl | ⟨next, kept, -⟩ := leads.cases_head
  · rfl
  · exact leadsOn_of_keeps kept

/-- The watch for what leads to a namespace. -/
def lossOf (store : Store) (scope : Handle .scope) : Watch where
  collection := none
  lost value := store.Leads value (.scope scope)
  leadsOn := Leads.leadsOn

/-- Nothing but what leads to a namespace keeps anything that does. -/
theorem Sound.lossOf (sound : store.Sound .nothing) (made : store.scopes.Has scope)
    (unlinked : ∀ h, (store.classes.get h).scope ≠ some scope) :
    store.Sound (store.lossOf scope) where
  nodes h value kept := ⟨(sound.nodes h value kept).made, fun leads =>
    .head (mem_kept_node.2 ⟨kept, leads.leadsOn⟩) leads⟩
  classes h value kept := ⟨(sound.classes h value kept).made, fun leads =>
    .head (mem_kept_classType.2 ⟨kept, leads.leadsOn⟩) leads⟩
  methods h parameter kept := ⟨(sound.methods h parameter kept).made, fun leads =>
    .head (mem_kept_method.2 (.inl ⟨parameter, kept, rfl⟩)) leads⟩
  maps h value kept := ⟨(sound.maps h value kept).made, fun leads =>
    .head (mem_kept_map.2 ⟨kept, leads.leadsOn⟩) leads⟩
  notes note inside := by
    obtain ⟨member, made, mayKeep⟩ := sound.notes note inside
    refine ⟨member, made, mayKeep.made, fun leads => .head ?_ leads⟩
    exact mem_kept_of_noted member (mem_notesOf.2 ⟨note, inside, rfl, rfl⟩)
  links h other linked := by
    refine ⟨(sound.links h other linked).made, fun leads => ?_⟩
    obtain same | ⟨next, kept, -⟩ := leads.cases_head
    · cases same
      exact unlinked h linked
    · cases kept
  past leads := by
    obtain rfl | ⟨next, kept, -⟩ := leads.cases_head
    · exact made
    · exact sound.made_of_keeps kept

/-- What leads to something lost is lost. -/
theorem Sound.lost_of_leads (sound : store.Sound watched) {holder value : Value}
    (leads : store.Leads holder value) (lost : watched.lost value) : watched.lost holder := by
  induction leads using Relation.ReflTransGen.head_induction_on with
  | refl => exact lost
  | head kept _ ih => exact (sound.mayKeep_of_kept kept).loses ih

/-! ## Links that are cut -/

theorem kept_release (store : Store) (values : List Value) :
    (store.release values).kept = store.kept := by
  funext value
  cases value with
  | classType h => simp only [kept, declaration_release]
  | _ => rfl

theorem leads_release (store : Store) (values : List Value) :
    (store.release values).Leads = store.Leads := by
  unfold Leads
  rw [kept_release]

theorem encircled_release (store : Store) (values : List Value) :
    (store.release values).Encircled = store.Encircled := by
  unfold Encircled Circular
  rw [kept_release, leads_release]

/-- The links to namespaces are kept to which the values lead. -/
theorem Sound.scope_release_iff (sound : store.Sound watched) {values : List Value}
    {h : Handle .classType} : ((store.release values).classes.get h).scope = some scope ↔
      (store.classes.get h).scope = some scope ∧
        ∃ value ∈ values, store.Leads value (.scope scope) := by
  rw [scope_release, Option.filter_eq_some_iff, sound.leadTo_iff]

end Store

namespace Session

variable {session : Session} {scope : Handle .scope} {h : Handle .classType} {step : Step}
variable {left : Value → Bool}

/-- Some variable leads to the namespace. -/
def Leads (session : Session) (scope : Handle .scope) : Prop :=
  ∃ value ∈ session.bindings.map Prod.snd, session.store.Leads value (.scope scope)

/-- Some variable leads to the namespace, or what is left of the objects in circles. -/
def Holds (session : Session) (left : Value → Bool) (scope : Handle .scope) : Prop :=
  session.Leads scope ∨ session.store.Encircled left scope

/-- The namespace was there, and neither variables nor declarations come to it any more. -/
structure Gone (session : Session) (scope : Handle .scope) : Prop where
  made : session.store.scopes.Has scope
  unled : ¬session.Leads scope
  unlinked : ∀ h, (session.store.classes.get h).scope ≠ some scope

/-- What is gone stays gone: the step is given nothing that leads to it. -/
theorem Gone.run (gone : session.Gone scope) (tidy : session.Tidy .nothing) (step : Step) :
    (session.run step).1.Gone scope := by
  have lossy : session.Tidy (session.store.lossOf scope) := by
    refine ⟨⟨tidy.store.lossOf gone.made gone.unlinked, fun _ none => by cases none⟩, ?_⟩
    exact fun value held => ⟨(tidy.bindings value held).made, fun leads =>
      gone.unled ⟨value, held, leads⟩⟩
  have after := lossy.run_of_none rfl step
  have lost : (session.store.lossOf scope).lost (.scope scope) := .refl
  refine ⟨after.store.past lost, ?_, fun h linked => ?_⟩
  · rintro ⟨value, held, leads⟩
    exact (after.bindings value held).safe (after.store.lost_of_leads leads lost)
  · exact (after.store.links h scope linked).safe lost

/-! ## Links at the end of a step -/

/-- How a step ends whose action left a store: everything is there that was made, and the links to
those namespaces that variables lead to, or what the collector left of the objects in circles. -/
structure Ended (store : Store) (left : Value → Bool) (after : Session) : Prop where
  made : ∀ {value}, store.Made value → after.store.Made value
  links : ∀ {h scope}, (after.store.classes.get h).scope = some scope ↔
    (store.classes.get h).scope = some scope ∧ after.Holds left scope

/-- The two times that links are cut come to one, when the variables and the objects in circles that
count the second time lead to nothing that the first time did not. -/
theorem ended_release {store : Store} (tidy : store.Tidy .nothing) (collector : Collector)
    {values : List Value} {bindings : Names} (fewer : bindings.map Prod.snd ⊆ values) :
    Ended store collector.after
      ⟨(store.release (values ++ store.circles collector.during)).release (bindings.map Prod.snd ++
        (store.release (values ++ store.circles collector.during)).circles collector.after),
        bindings⟩ := by
  have between := tidy.release (values ++ store.circles collector.during)
  refine ⟨fun made => (made.release _).release _, fun {h scope} => ?_⟩
  rw [between.scope_release_iff, tidy.scope_release_iff, between.exists_leads_iff,
    tidy.exists_leads_iff]
  simp only [Holds, Leads, Store.leads_release, Store.encircled_release]
  constructor
  · rintro ⟨⟨linked, -⟩, holds⟩
    exact ⟨linked, holds⟩
  · rintro ⟨linked, holds⟩
    refine ⟨⟨linked, holds.imp ?_ fun encircled => ?_⟩, holds⟩
    · exact fun ⟨value, held, leads⟩ => ⟨value, fewer held, leads⟩
    · exact encircled.mono collector.during_of_after

theorem ended_run (tidy : session.Tidy .nothing) (step : Step) :
    Op.Leaves (fun store => session.store.Within store ∧
      Ended store step.collector.after (session.run step).1)
      ((step.action.run session.bindings).run session.store) := by
  have gives : Op.Gives .nothing session.store (step.action.run session.bindings) ([·]) :=
    tidy.gives (fun watch => absurd rfl watch) fun _ watch => by cases watch
  unfold Op.Gives Op.Ends at gives
  unfold Session.run
  cases ran : (step.action.run session.bindings).run session.store with
  | ok result store =>
      rw [ran] at gives
      obtain ⟨left, within, -⟩ := gives
      exact ⟨within, ended_release left _ (snd_bound_subset _ _ _)⟩
  | error fault store =>
      rw [ran] at gives
      obtain ⟨left, within⟩ := gives
      exact ⟨within, ended_release left _ (List.Subset.refl _)⟩

/-- The declaration has the namespace, which is held, or the namespace is gone. -/
structure Follows (session : Session) (left : Value → Bool) (h : Handle .classType)
    (scope : Handle .scope) : Prop where
  has : session.store.classes.Has h
  follows : (session.store.classes.get h).scope = some scope ∧ session.Holds left scope ∨
    (session.store.classes.get h).scope = none ∧ session.Gone scope

theorem Follows.linked (follows : session.Follows left h scope) (leads : session.Leads scope) :
    (session.store.classes.get h).scope = some scope := by
  obtain ⟨linked, -⟩ | ⟨-, gone⟩ := follows.follows
  · exact linked
  · exact absurd leads gone.unled

theorem Follows.holds (follows : session.Follows left h scope)
    (linked : (session.store.classes.get h).scope = some scope) : session.Holds left scope := by
  obtain ⟨-, holds⟩ | ⟨unlinked, -⟩ := follows.follows
  · exact holds
  · cases linked.symm.trans unlinked

theorem Follows.cut (follows : session.Follows left h scope)
    (unheld : ¬session.Holds left scope) : (session.store.classes.get h).scope = none := by
  obtain ⟨-, holds⟩ | ⟨none, -⟩ := follows.follows
  · exact absurd holds unheld
  · exact none

/-- A link that an action leaves is one that follows. -/
theorem Ended.follows {store : Store} {after : Session} (ended : Ended store left after)
    (made : store.Made (.scope scope)) (has : store.Made (.classType h))
    (linked : (store.classes.get h).scope = some scope) : after.Follows left h scope := by
  refine ⟨ended.made has, ?_⟩
  by_cases holds : after.Holds left scope
  · exact .inl ⟨ended.links.2 ⟨linked, holds⟩, holds⟩
  · refine .inr ⟨?_, ended.made made, fun leads => holds (.inl leads), fun other still =>
      holds (ended.links.1 still).2⟩
    cases still : (after.store.classes.get h).scope with
    | none => rfl
    | some other =>
        obtain ⟨same, others⟩ := ended.links.1 still
        cases linked.symm.trans same
        exact absurd others holds

/-- What a step leaves behind its action, be that refused or not. -/
theorem exists_ended (tidy : session.Tidy .nothing) (step : Step) :
    ∃ store, session.store.Within store ∧
      Ended store step.collector.after (session.run step).1 := by
  have leaves := ended_run tidy step
  cases ran : (step.action.run session.bindings).run session.store with
  | ok result store => exact ⟨store, by rwa [ran] at leaves⟩
  | error fault store => exact ⟨store, by rwa [ran] at leaves⟩

/-- A step keeps just the links to namespaces that are held when it ends. -/
theorem linked_run_iff (tidy : session.Tidy .nothing) (has : session.store.classes.Has h) :
    ((session.run step).1.store.classes.get h).scope = some scope ↔
      (session.store.classes.get h).scope = some scope ∧
        (session.run step).1.Holds step.collector.after scope := by
  obtain ⟨store, within, ended⟩ := exists_ended tidy step
  rw [ended.links, within.linked has]

/-- A link that is cut stays cut. -/
theorem unlinked_run (tidy : session.Tidy .nothing) (has : session.store.classes.Has h)
    (unlinked : (session.store.classes.get h).scope = none) (step : Step) :
    ((session.run step).1.store.classes.get h).scope = none := by
  cases still : ((session.run step).1.store.classes.get h).scope with
  | none => rfl
  | some other => cases unlinked.symm.trans ((linked_run_iff tidy has).1 still).1

theorem has_run (tidy : session.Tidy .nothing) (has : session.store.classes.Has h) (step : Step) :
    (session.run step).1.store.classes.Has h := by
  obtain ⟨store, within, ended⟩ := exists_ended tidy step
  have made : session.store.Made (.classType h) := has
  exact ended.made (within.made made)

theorem unlinked_after (tidy : session.Tidy .nothing) (has : session.store.classes.Has h)
    (unlinked : (session.store.classes.get h).scope = none) (steps : List Step) :
    ((session.after steps).store.classes.get h).scope = none := by
  induction steps generalizing session with
  | nil => exact unlinked
  | cons step rest ih =>
      exact ih (tidy.run_of_none rfl step) (has_run tidy has step)
        (unlinked_run tidy has unlinked step)

theorem Follows.run (follows : session.Follows left h scope) (tidy : session.Tidy .nothing)
    (step : Step) : (session.run step).1.Follows step.collector.after h scope := by
  obtain ⟨linked, -⟩ | ⟨unlinked, gone⟩ := follows.follows
  · obtain ⟨store, within, ended⟩ := exists_ended tidy step
    have made : session.store.Made (.classType h) := follows.has
    exact ended.follows (within.made (tidy.store.links h scope linked).made) (within.made made)
      ((within.linked follows.has).trans linked)
  · exact ⟨has_run tidy follows.has step,
      .inr ⟨unlinked_run tidy follows.has unlinked step, gone.run tidy step⟩⟩

theorem Follows.after (follows : session.Follows step.collector.after h scope)
    (tidy : session.Tidy .nothing) (steps : List Step) :
    (session.after steps).Follows (steps.getLastD step).collector.after h scope := by
  induction steps generalizing session step with
  | nil => exact follows
  | cons next rest ih =>
      rw [List.getLastD_cons]
      exact ih (follows.run tidy next) (tidy.run_of_none rfl next)

/-- The declaration still has the namespace that it had when the namespace was held all along. -/
theorem Follows.linked_after_iff (follows : session.Follows step.collector.after h scope)
    (tidy : session.Tidy .nothing) (steps : List Step) :
    ((session.after steps).store.classes.get h).scope = some scope ↔
      (session.store.classes.get h).scope = some scope ∧ ∀ done, done <+: steps →
        (session.after done).Holds (done.getLastD step).collector.after scope := by
  induction steps generalizing session step with
  | nil =>
      refine (and_iff_left_of_imp fun linked done begun => ?_).symm
      rw [List.prefix_nil.1 begun]
      exact follows.holds linked
  | cons next rest ih =>
      rw [Session.after, List.foldl_cons, ← Session.after,
        ih (follows.run tidy next) (tidy.run_of_none rfl next), linked_run_iff tidy follows.has]
      constructor
      · rintro ⟨⟨linked, -⟩, holds⟩
        refine ⟨linked, fun done begun => ?_⟩
        obtain rfl | ⟨more, rfl, further⟩ := List.prefix_cons_iff.1 begun
        · exact follows.holds linked
        · rw [List.getLastD_cons]
          exact holds more further
      · rintro ⟨linked, holds⟩
        have later (done : List Step) (begun : done <+: rest) :
            ((session.run next).1.after done).Holds (done.getLastD next).collector.after scope := by
          have held := holds (next :: done) (List.cons_prefix_cons.2 ⟨rfl, begun⟩)
          rwa [List.getLastD_cons] at held
        exact ⟨⟨linked, later [] List.nil_prefix⟩, later⟩

/-- A declaration is made in the namespace that is given for it. -/
theorem linked_of_newClass {bindings : Names} {name : Term} {variableName : String}
    {store after : Store} (bound : bindings.find? variableName = some (.scope scope))
    (ran : ((Action.newClass name (some variableName)).run bindings).run store =
      .ok (.classType h) after) :
    after.Made (.classType h) ∧ (after.classes.get h).scope = some scope := by
  obtain ⟨value, between, -, ran⟩ := Op.exists_of_run_bind ran
  simp only [Action.optional, Names.find, bound, pure_bind] at ran
  obtain ⟨label, between, -, ran⟩ := Op.exists_of_run_bind ran
  cases ran
  exact ⟨Arena.has_push_next .., congrArg ClassObject.scope (Arena.get_push_next ..)⟩

/-- When a declaration was made in a namespace that is still held when the step ends, it has it. -/
theorem follows_run {name : Term} {variableName : String} (tidy : session.Tidy .nothing)
    (action : step.action = .newClass name (some variableName))
    (bound : session.bindings.find? variableName = some (.scope scope))
    (made : (session.run step).2.result = .ok (.classType h)) :
    (session.run step).1.Follows step.collector.after h scope ∧
      (((session.run step).1.store.classes.get h).scope = some scope ↔
        (session.run step).1.Holds step.collector.after scope) := by
  have leaves := ended_run tidy step
  unfold Session.run at made
  cases ran : (step.action.run session.bindings).run session.store with
  | error fault store =>
      rw [ran] at made
      cases made
  | ok result store =>
      rw [ran] at made leaves
      cases made
      obtain ⟨within, ended⟩ := leaves
      rw [action] at ran
      obtain ⟨has, linked⟩ := linked_of_newClass bound ran
      have held := (tidy.bindings _ (Names.mem_of_find? bound)).made
      exact ⟨ended.follows (within.made held) has linked,
        ended.links.trans (and_iff_right linked)⟩

end Session

/-! ## Rendering with and without the namespace -/

/-- The store with a declaration in another namespace, or in none. -/
def Store.relink (store : Store) (h : Handle .classType) (link : Option (Handle .scope)) : Store :=
  { store with classes := store.classes.set h { store.classes.get h with scope := link } }

namespace Op

/-- What an operation answers, whatever it leaves behind. -/
def answer {α : Type} (op : Op α) (store : Store) : Except Fault α :=
  match op.run store with
  | .ok a _ => .ok a
  | .error fault _ => .error fault

variable {store : Store} {h : Handle .classType}

/-- A shortener matters as far as it takes the place of the one of the declaration itself. -/
theorem run_renderWith_congr {first second : Option Shortener}
    (same : first.getD (store.ownShortener h) = second.getD (store.ownShortener h))
    (layout : Layout) : (renderWith (.classType h) first layout).run store =
      (renderWith (.classType h) second layout).run store := by
  have texts : store.renderClass h first layout = store.renderClass h second layout := by
    rw [Store.renderClass, Store.renderClass, same]
  cases read : store.classComment h with
  | ok comment => rw [run_renderWith_of_ok read, run_renderWith_of_ok read, texts]
  | error fault => rw [run_renderWith_of_error read, run_renderWith_of_error read]

theorem answer_renderWith (store : Store) (h : Handle .classType) (shortener : Option Shortener)
    (layout : Layout) : (renderWith (.classType h) shortener layout).answer store =
      match store.classComment h with
      | .ok _ => .ok (textValue (store.renderClass h shortener layout))
      | .error fault => .error (store.refusal fault) := by
  rw [answer]
  cases read : store.classComment h with
  | ok comment => rw [run_renderWith_of_ok read]; rfl
  | error fault => rw [run_renderWith_of_error read]

theorem run_shortenerOf_of_none {value : Value} (given : value ≠ .null)
    (other : store.shortener? value = none) (names : Bool) :
    (shortenerOf names value).run store =
      if names then .error .unanswered store else .ok (some .full) store := by
  cases value with
  | atom a =>
      cases a with
      | null => exact absurd rfl given
      | _ => cases names <;> rfl
  | scope _ | shortener _ => cases other
  | _ => cases names <;> rfl

/-- The shortener that a value stands for is found before anything is written. -/
theorem run_render (store : Store) (target value : Value) (layout : Layout) :
    (render target value layout).run store =
      (shortenerOf (namesTypes store target) value >>= fun shortener =>
        renderWith target shortener layout).run store := rfl

theorem run_render_null (store : Store) (target : Value) (layout : Layout) :
    (render target .null layout).run store = (renderWith target none layout).run store := by
  have none : (shortenerOf (namesTypes store target) .null).run store = .ok none store := rfl
  rw [run_render, run_bind_ok none]

theorem run_render_scope (store : Store) (target : Value) (scope : Handle .scope)
    (layout : Layout) : (render target (.scope scope) layout).run store =
      (renderWith target (some (.ofNamespace (store.scopes.get scope))) layout).run store := by
  rw [run_render, run_bind_ok (run_shortenerOf_of_some rfl _)]

/-- What is given is a shortener, or will do only where there are no names to write. -/
theorem answer_render {value : Value} (given : value ≠ .null) (target : Value) (layout : Layout) :
    (render target value layout).answer store =
      match store.shortener? value with
      | some shortener => (renderWith target (some shortener) layout).answer store
      | none =>
          if namesTypes store target then .error .unanswered
          else (renderWith target (some .full) layout).answer store := by
  cases found : store.shortener? value with
  | some shortener =>
      rw [answer, run_render, run_bind_ok (run_shortenerOf_of_some found _)]
      rfl
  | none =>
      have shortened := run_shortenerOf_of_none given found (namesTypes store target)
      cases names : namesTypes store target with
      | true =>
          rw [names] at shortened
          rw [answer, run_render, names, run_bind_error shortened]
          rfl
      | false =>
          rw [names] at shortened
          rw [answer, run_render, names, run_bind_ok shortened]
          rfl

end Op

namespace Store

variable {store : Store} {h : Handle .classType} {link : Option (Handle .scope)}

theorem declaration_relink (other : Handle .classType) :
    ((store.relink h link).classes.get other).declaration =
      (store.classes.get other).declaration := by
  refine Arena.image_get_set ClassObject.declaration ?_ other
  rfl

theorem plain_relink (other : Handle .classType) :
    (store.relink h link).plain other = store.plain other := by
  rw [plain, plain, declaration_relink]
  rfl

theorem classComment_relink (other : Handle .classType) :
    (store.relink h link).classComment other = store.classComment other := by
  rw [classComment, classComment, declaration_relink]
  rfl

theorem refusal_relink (fault : Fault) :
    (store.relink h link).refusal fault = store.refusal fault := by
  have checked : (store.relink h link).checkText = store.checkText := by
    funext value
    cases value with
    | classType other => rw [checkText, checkText, classComment_relink]
    | _ => rfl
  rw [refusal, refusal, checked]

/-- With a shortener that is given a declaration is written the same in every namespace. -/
theorem answer_render_relink {shortener : Value} (given : shortener ≠ .null) (layout : Layout) :
    (Op.render (.classType h) shortener layout).answer (store.relink h link) =
      (Op.render (.classType h) shortener layout).answer store := by
  have written (shortener : Shortener) :
      (Op.renderWith (.classType h) (some shortener) layout).answer (store.relink h link) =
        (Op.renderWith (.classType h) (some shortener) layout).answer store := by
    rw [Op.answer_renderWith, Op.answer_renderWith, classComment_relink, renderClass,
      renderClass, plain_relink]
    simp only [refusal_relink, Option.getD_some]
  have sameShortener : (store.relink h link).shortener? = store.shortener? := rfl
  have sameNames : Op.namesTypes (store.relink h link) (.classType h) =
      Op.namesTypes store (.classType h) := by
    rw [Op.namesTypes, Op.namesTypes, plain_relink]
  rw [Op.answer_render given, Op.answer_render given, sameShortener, sameNames]
  simp only [written]

end Store

/-- The declaration tells its namespace, if it has one. -/
theorem Op.run_getNamespace (store : Store) (h : Handle .classType) :
    (Op.ask (.classType h) .getNamespace []).run store =
      .ok (((store.classes.get h).scope.map Value.scope).getD .null) store := rfl

namespace Session

variable {session : Session} {scope : Handle .scope} {h : Handle .classType}

/-- What a declaration tells when it is asked for its namespace. -/
def Tells (session : Session) (h : Handle .classType) (answer : Value) : Prop :=
  (Op.ask (.classType h) .getNamespace []).run session.store = .ok answer session.store

/-- How a declaration shows the namespace that it was made in, where `left` tells which objects in
circles are not collected yet. -/
structure Shows (session : Session) (left : Value → Bool) (h : Handle .classType)
    (scope : Handle .scope) : Prop where
  /-- The namespace is told while some variable leads to it. -/
  told : session.Leads scope → session.Tells h (.scope scope)
  /-- When nothing leads to it any more, null is told, -/
  untold : ¬session.Holds left scope → session.Tells h .null
  /-- and once the namespace is not told, it is null for good, whatever is done. -/
  lost : ¬session.Tells h (.scope scope) → ∀ later, (session.after later).Tells h .null
  /-- Without a shortener the names are those of the namespace, as it is by now. -/
  short : session.Tells h (.scope scope) → ∀ layout,
    (Op.render (.classType h) .null layout).run session.store =
      (Op.render (.classType h) (.scope scope) layout).run session.store
  /-- Afterwards they are full ones. -/
  full : session.Tells h .null → ∀ layout,
    (Op.render (.classType h) .null layout).run session.store =
      (Op.renderWith (.classType h) (some .full) layout).run session.store
  /-- With a shortener it does not matter what the namespace is, and whether there is one. -/
  given : ∀ {shortener}, shortener ≠ .null → ∀ layout link,
    (Op.render (.classType h) shortener layout).answer (session.store.relink h link) =
      (Op.render (.classType h) shortener layout).answer session.store
  /-- A variable that is not bound to the namespace leads to it only through an object that keeps
  it. -/
  bound : (∀ value ∈ session.bindings.map Prod.snd, ∀ holder, session.store.Leads value holder →
      .scope scope ∉ session.store.kept holder) →
    (session.Leads scope ↔ .scope scope ∈ session.bindings.map Prod.snd)

theorem tells_scope_iff :
    session.Tells h (.scope scope) ↔ (session.store.classes.get h).scope = some scope := by
  rw [Tells, Op.run_getNamespace]
  cases (session.store.classes.get h).scope with
  | none => exact ⟨(fun told => nomatch told), fun linked => nomatch linked⟩
  | some other => exact ⟨fun told => by cases told; rfl, fun linked => by cases linked; rfl⟩

theorem tells_null_iff :
    session.Tells h .null ↔ (session.store.classes.get h).scope = none := by
  rw [Tells, Op.run_getNamespace]
  cases (session.store.classes.get h).scope with
  | none => exact ⟨fun _ => rfl, fun _ => rfl⟩
  | some other => exact ⟨(fun told => nomatch told), fun unlinked => nomatch unlinked⟩

theorem leads_iff_of_unkept (unkept : ∀ value ∈ session.bindings.map Prod.snd, ∀ holder,
      session.store.Leads value holder → .scope scope ∉ session.store.kept holder) :
    session.Leads scope ↔ .scope scope ∈ session.bindings.map Prod.snd := by
  constructor
  · rintro ⟨value, held, leads⟩
    obtain rfl | ⟨holder, leads, kept⟩ := leads.cases_tail
    · exact held
    · exact absurd kept (unkept value held holder leads)
  · exact fun held => ⟨_, held, .refl⟩

theorem Follows.shows (follows : session.Follows left h scope) (tidy : session.Tidy .nothing) :
    session.Shows left h scope where
  told leads := tells_scope_iff.2 (follows.linked leads)
  untold unheld := tells_null_iff.2 (follows.cut unheld)
  lost untold later := by
    obtain ⟨linked, -⟩ | ⟨unlinked, -⟩ := follows.follows
    · exact absurd (tells_scope_iff.2 linked) untold
    · exact tells_null_iff.2 (unlinked_after tidy follows.has unlinked later)
  short told layout := by
    rw [Op.run_render_null, Op.run_render_scope]
    refine Op.run_renderWith_congr ?_ layout
    rw [Option.getD_none, Option.getD_some, Store.ownShortener, tells_scope_iff.1 told]
  full untold layout := by
    rw [Op.run_render_null]
    refine Op.run_renderWith_congr ?_ layout
    rw [Option.getD_none, Option.getD_some, Store.ownShortener, tells_null_iff.1 untold]
  given given layout _ := Store.answer_render_relink given layout
  bound := leads_iff_of_unkept

/-- At every moment after it was made, a declaration shows its namespace; and that is told just when
up to then, after every step, a variable or a circle that was not collected yet led to it. -/
theorem shows_after (steps : List Step) {step : Step} {name : Term} {variableName : String}
    (action : step.action = .newClass name (some variableName))
    (bound : (start.after steps).bindings.find? variableName = some (.scope scope))
    (made : ((start.after steps).run step).2.result = .ok (.classType h)) (more : List Step) :
    (((start.after steps).run step).1.after more).Shows (more.getLastD step).collector.after
        h scope ∧
      ((((start.after steps).run step).1.after more).Tells h (.scope scope) ↔
        ∀ done, done <+: more → (((start.after steps).run step).1.after done).Holds
          (done.getLastD step).collector.after scope) := by
  have before := tidy_after steps
  have between := before.run_of_none rfl step
  obtain ⟨follows, linked⟩ := follows_run before action bound made
  have after : (((start.after steps).run step).1.after more).Tidy .nothing := by
    have all := tidy_after (steps ++ step :: more)
    rwa [Session.after, List.foldl_append, List.foldl_cons] at all
  refine ⟨(follows.after between more).shows after, ?_⟩
  rw [tells_scope_iff, follows.linked_after_iff between more, linked]
  exact and_iff_right_of_imp fun holds => holds [] List.nil_prefix

/-- A namespace is made, -/
def founding : List Step := [⟨.newScope "App", some "app", .prompt⟩]

/-- and a class in it. -/
def settling : Step :=
  ⟨.newClass (.atom (.word (.text "User"))) (some "app"), some "user", .prompt⟩

/-- The namespace gets an import after that, and the class a supertype. -/
def importing : List Step :=
  [⟨.ask "app" (some .addUse) [.atom (.word (.text "Lib\\Base")), .atom (.word (.text "Root"))],
    none, .prompt⟩,
   ⟨.ask "user" (some .setExtends) [.atom (.word (.text "Lib\\Base"))], none, .prompt⟩]

/-- The class is written with the import, and when the namespace is dropped without it. -/
theorem shows_import :
    ((((start.after founding).run settling).1.after importing).Shows Collector.prompt.after
        ⟨0⟩ ⟨0⟩ ∧
      ((((start.after founding).run settling).1.after importing).run
        ⟨.render "user" none .standard, none, .prompt⟩).2.result.toOption =
          some (.text "class User extends Root\n\x7b\n\x7d\n")) ∧
    (((start.after founding).run settling).1.after
        (importing ++ [⟨.drop "app", none, .prompt⟩])).Shows Collector.prompt.after ⟨0⟩ ⟨0⟩ ∧
      ((((start.after founding).run settling).1.after
        (importing ++ [⟨.drop "app", none, .prompt⟩])).run
        ⟨.render "user" none .standard, none, .prompt⟩).2.result.toOption =
          some (.text "class User extends Lib\\Base\n\x7b\n\x7d\n") := by
  have bound : (start.after founding).bindings.find? "app" = some (.scope ⟨0⟩) := by decide +kernel
  have action : settling.action = .newClass (.atom (.word (.text "User"))) (some "app") := rfl
  have made : ((start.after founding).run settling).2.result = .ok (.classType ⟨0⟩) := by
    decide +kernel
  have shows := shows_after founding action bound made
  have alive := (shows importing).1
  have dropped := (shows (importing ++ [⟨.drop "app", none, .prompt⟩])).1
  refine ⟨⟨alive, ?_⟩, dropped, ?_⟩
  · decide +kernel
  · decide +kernel

/-- Nothing is collected. -/
def idle : Collector := ⟨fun _ => true, fun _ => true, fun _ => id⟩

/-- Another class gets a list of itself and the namespace as a flag, and then no variable leads to
it or the namespace any more. -/
def encircling : List Step :=
  [⟨.newClass (.atom (.word (.text "Item"))) none, some "item", idle⟩,
   ⟨.ask "item" (some .setFinal) [.list [.bound "item", .bound "app"]], none, idle⟩,
   ⟨.drop "item", none, idle⟩, ⟨.drop "app", none, idle⟩]

-- The circle keeps the namespace until it is collected.
example : (((start.after (founding ++ settling :: encircling)).run
      ⟨.ask "user" (some .getNamespace) [], none, idle⟩).2.result.toOption,
    ((start.after (founding ++ settling :: encircling ++ [⟨.drop "app", none, .prompt⟩])).run
      ⟨.ask "user" (some .getNamespace) [], none, idle⟩).2.result.toOption) =
    (some (.scope ⟨0⟩), some .null) := by decide +kernel

/-- The class gets the namespace as a flag before the variable of it is dropped. -/
def flagging : List Step :=
  [⟨.ask "user" (some .setFinal) [.bound "app"], none, .prompt⟩, ⟨.drop "app", none, .prompt⟩]

/-- A flag keeps a namespace that no variable is bound to. -/
theorem flag_keeps_namespace :
    ((((start.after founding).run settling).1.after flagging).bindings.map Prod.snd =
        [.classType ⟨0⟩] ∧
      (Op.ask (.classType ⟨0⟩) .getNamespace []).run
          (((start.after founding).run settling).1.after flagging).store =
        .ok (.scope ⟨0⟩) (((start.after founding).run settling).1.after flagging).store) ∧
      ¬∀ (steps : List Step) (step : Step) (name : Term) (variableName : String)
        (scope : Handle .scope) (h : Handle .classType),
        step.action = .newClass name (some variableName) →
        (start.after steps).bindings.find? variableName = some (.scope scope) →
        ((start.after steps).run step).2.result = .ok (.classType h) → ∀ more : List Step,
          ((Op.ask (.classType h) .getNamespace []).run
              (((start.after steps).run step).1.after more).store =
            .ok (.scope scope) (((start.after steps).run step).1.after more).store ↔
          .scope scope ∈ (((start.after steps).run step).1.after more).bindings.map Prod.snd) := by
  have bindings : (((start.after founding).run settling).1.after flagging).bindings.map Prod.snd =
      [.classType ⟨0⟩] := by decide +kernel
  have told : (Op.ask (.classType ⟨0⟩) .getNamespace []).run
      (((start.after founding).run settling).1.after flagging).store =
        .ok (.scope ⟨0⟩) (((start.after founding).run settling).1.after flagging).store := by
    have linked : ((((start.after founding).run settling).1.after flagging).store.classes.get
        ⟨0⟩).scope = some ⟨0⟩ := by decide +kernel
    rw [Op.run_getNamespace, linked]
    rfl
  refine ⟨⟨bindings, told⟩, fun exactly => ?_⟩
  have held := (exactly founding settling _ "app" ⟨0⟩ ⟨0⟩ rfl (by decide +kernel)
    (by decide +kernel) flagging).1 told
  rw [bindings] at held
  cases List.mem_singleton.1 held

end Session

end PhpDecl
