import TicketFlow.Proofs.Data.Matching
import TicketFlow.Proofs.Evaluation.Store
import TicketFlow.Proofs.Reduction.Action
import TicketFlow.Proofs.Reduction.Frame
import TicketFlow.Proofs.Timing.Waiting

namespace TicketFlow

/-! What waits keeps waiting.

However often a term that waits for a ticket is reduced, as long as the store
does not know the output, it comes to one term that waits, unless the reduction
is rejected.  Values stay as they are.
-/

/-- The store knows no output for the placeholder. -/
def Store.Waits (store : Store) (placeholder : Placeholder) : Prop :=
  store.outputs placeholder.ticket placeholder.channel = none

section Lingering

variable {waits : Placeholder → Prop} {term : Term}
  {terms rest : Compound} {apply : Apply}

/-- Values stay as they are, and what waits still waits. -/
structure Compound.Lingers (waits : Placeholder → Prop)
    (before after : Compound) : Prop where
  normal : Compound.isNormal before = true → after = before
  awaits : Compound.Awaits waits before → Compound.Awaits waits after

variable {task : Compound} {bindings : Bindings}

theorem Compound.Lingers.append {head tail : Compound}
    (first : Compound.Lingers waits [term] head)
    (others : Compound.Lingers waits rest tail) :
    Compound.Lingers waits (term :: rest) (head ++ tail) where
  normal normal := by
    obtain ⟨here, later⟩ := Bool.and_eq_true_iff.mp
      (by simpa [isNormal] using normal : (term.isNormal && isNormal rest) = true)
    rw [first.normal (by simpa [isNormal] using here), others.normal later]
    rfl
  awaits waiting := by
    rcases awaits_cons.mp waiting with here | later
    · exact awaits_append.mpr (.inl (first.awaits ⟨term, List.mem_singleton_self term, here⟩))
    · exact awaits_append.mpr (.inr (others.awaits later))

/-- An application that waits still does when its task and its arguments have been reduced. -/
theorem Apply.awaits_of_lingers (awaits : apply.toTerm.Awaits waits)
    (tasks : Compound.Lingers waits apply.task task)
    (arguments : OrderedMap.Matches (Compound.Lingers waits) apply.bindings bindings) :
    ({ apply with task, bindings } : Apply).toTerm.Awaits waits := by
  obtain ⟨before, given, channel, flag⟩ := apply
  cases awaits with
  | task inside waiting =>
      obtain ⟨inner, inside, waiting⟩ := tasks.awaits ⟨_, inside, waiting⟩
      exact .task inside waiting
  | @iterated _ first others _ _ _ _ _ sole iterates bound inside waiting =>
      have normal : Compound.isNormal (.lambda first :: others.map .lambda) = true := by
        simp [Compound.isNormal, Term.isNormal]
      obtain rfl := tasks.normal normal
      obtain ⟨more, found, lingers⟩ := arguments.get?_some bound
      obtain ⟨inner, inside, waiting⟩ := lingers.awaits ⟨_, inside, waiting⟩
      exact .iterated sole iterates found inside waiting
  | excess takes among inside waiting =>
      obtain rfl := tasks.normal rfl
      obtain ⟨listed, excess⟩ := List.mem_filter.mp among
      obtain ⟨more, found, lingers⟩ := arguments.mem_left listed
      obtain ⟨inner, inside, waiting⟩ := lingers.awaits ⟨_, inside, waiting⟩
      exact .excess takes (List.mem_filter.mpr ⟨found, excess⟩) inside waiting
  | argument definite among inside waiting =>
      obtain rfl := tasks.normal rfl
      obtain ⟨more, found, lingers⟩ := arguments.mem_left among
      obtain ⟨inner, inside, waiting⟩ := lingers.awaits ⟨_, inside, waiting⟩
      refine .argument (fun param iterates => ?_) found inside waiting
      obtain ⟨value, normal, bound, alone⟩ := definite param iterates
      have single : Compound.isNormal [value] = true := by
        simpa [Compound.isNormal] using normal
      obtain ⟨_, still, lingers⟩ := arguments.get?_some bound
      obtain rfl := lingers.normal single
      refine ⟨value, normal, still, fun entry listed named => ?_⟩
      obtain ⟨before, was, lingers⟩ := arguments.mem_right listed
      obtain rfl := alone _ was named
      exact lingers.normal single

end Lingering

section Passes

/-- Every block in use is as it was, and so is the source. -/
structure Pass.Follows (before after : Pass Store) :
    Prop extends before.Framed after where
  source : after.source = before.source
  sound : before.arena.Sound → after.arena.Sound

theorem Pass.conservation_follows : Conservation Follows where
  refl pass := ⟨conservation_framed.refl pass, rfl, id⟩
  trans first second :=
    ⟨conservation_framed.trans first.toFramed second.toFramed,
      second.source.trans first.source, fun before => second.sound (first.sound before)⟩
  made preserves sound := ⟨conservation_framed.made preserves sound, rfl, sound⟩
  asked {pass apply placeholder source} granted := by
    have same : source = pass.source := by
      cases task : apply.foreignTask with
      | error error => simp [TicketSource.request, task, Except.map] at granted
      | ok lambda =>
          simpa [TicketSource.request, task, Except.map,
            eq_comm] using congrArg (Except.map Prod.snd) granted
    exact ⟨conservation_framed.asked granted, same, id⟩
  read pass id
    channel := ⟨conservation_framed.read pass id channel, rfl, fun sound => sound⟩
  entered
    follows := ⟨conservation_framed.entered follows.toFramed, follows.source, follows.sound⟩
  resolved unmarked follows := ⟨conservation_framed.resolved unmarked follows.toFramed,
    follows.source, follows.sound⟩

namespace Reduction

open PassM

/-- A conditional that waits for its condition does not take a branch. -/
theorem decide?_of_awaits {waits : Placeholder → Prop} (cond : Cond)
    {condition : Compound} (awaits : Compound.Awaits waits condition) :
    decide? cond condition = none := by
  have unknown : Compound.isNormal condition = false :=
    Bool.eq_false_iff.mpr awaits.not_normal
  obtain ⟨inner, inside, _⟩ := awaits
  have inhabited : condition.isEmpty = false :=
    List.isEmpty_eq_false_iff.mpr (List.ne_nil_of_mem inside)
  simp [decide?, unknown, inhabited]

theorem closeCond_of_awaits {σ : Type} {recurse : Compound → PassM σ Compound}
    {waits : Placeholder → Prop} (cond : Cond) {condition : Compound}
    (awaits : Compound.Awaits waits condition) (output : String) :
    closeCond recurse cond condition output = residualCond recurse cond condition := by
  rw [closeCond, decide?_of_awaits cond awaits]

/-- Reducing with what the store knows leaves values alone and lets wait what waits. -/
structure Lingering (known : Store)
    (recurse : Compound → PassM Store Compound) : Prop where
  follows : ∀ terms, Conserves Pass.Follows (recurse terms)
  lingers : ∀ {terms result : Compound} {pass after : Pass Store}, pass.source = known →
    recurse terms pass = (.ok result, after) → Compound.Lingers known.Waits terms result

variable {known : Store} {recurse : Compound → PassM Store Compound}
  {pass after : Pass Store} {term : Term} {terms result : Compound}
  {waits : Placeholder → Prop}

theorem Lingering.source (lingering : Lingering known recurse)
    (source : pass.source = known) (ran : recurse terms pass = (.ok result, after)) :
    after.source = known := by
  have follows := lingering.follows terms pass
  rw [ran] at follows
  exact follows.source.trans source

theorem Lingering.mapEntries (lingering : Lingering known recurse)
    {bindings results : Bindings} (source : pass.source = known)
    (ran : PassM.mapEntries recurse bindings pass = (.ok results, after)) :
    OrderedMap.Matches (Compound.Lingers known.Waits) bindings results := by
  induction bindings generalizing pass after results with
  | nil =>
      obtain rfl := Except.ok.inj (Prod.mk.inj ran).1
      exact .nil
  | cons binding rest ih =>
      obtain ⟨name, value⟩ := binding
      unfold PassM.mapEntries at ran
      obtain ⟨head, between, here, ran⟩ := bind_ok_iff.mp ran
      obtain ⟨tail, _, later, ran⟩ := bind_ok_iff.mp ran
      obtain rfl := Except.ok.inj (Prod.mk.inj ran).1
      exact .cons (lingering.lingers source here) (ih (lingering.source source here) later)

theorem residualCond_ok {cond : Cond} {condition : Compound}
    (ran : residualCond recurse cond condition pass = (.ok result, after)) :
    ∃ thenBlock elseBlock,
      result = [Cond.toTerm { cond with condition, thenBlock, elseBlock }] := by
  obtain ⟨thenBlock, _, _, ran⟩ := bind_ok_iff.mp ran
  obtain ⟨elseBlock, _, _, ran⟩ := bind_ok_iff.mp ran
  exact ⟨thenBlock, elseBlock, (Except.ok.inj (Prod.mk.inj ran).1).symm⟩

theorem closeCurry_other {σ : Type} (curry : Curry) {task : Term}
    (unlike : ∀ lambda, task ≠ .lambda lambda) (bindings : Bindings) :
    (closeCurry curry [task] bindings : PassM σ Compound) =
      if task.isNormal then PassM.reject (.notLambda curry.toTerm task)
      else pure [Curry.toTerm { task := some [task], bindings }] := by
  cases task with
  | lambda lambda => exact absurd rfl (unlike lambda)
  | _ => rfl

theorem closeCurry_many {σ : Type} (curry : Curry)
    (first second : Term) (rest : Compound) (bindings : Bindings) :
    (closeCurry curry (first :: second :: rest) bindings : PassM σ Compound) =
      pure [Curry.toTerm { task := some (first :: second :: rest), bindings }] := by
  simp [closeCurry]

/-- A curry whose task waits stays. -/
theorem closeCurry_of_awaits (curry : Curry) {task : Compound}
    (awaits : task.Awaits waits) (bindings : Bindings) :
    (closeCurry curry task bindings : PassM Store Compound) =
      pure [Curry.toTerm { task := some task, bindings }] := by
  obtain ⟨inner, inside, waiting⟩ := awaits
  match task with
  | [] => simp at inside
  | [single] =>
      obtain rfl := List.mem_singleton.mp inside
      rw [closeCurry_other curry waiting.ne_lambda, waiting.not_normal]
      rfl
  | first :: second :: rest => exact closeCurry_many curry first second rest bindings

theorem Lingering.reduceApply (lingering : Lingering known recurse) (apply : Apply)
    (awaits : apply.toTerm.Awaits known.Waits) (source : pass.source = known)
    (ran : Reduction.reduceApply recurse apply pass = (.ok result, after)) :
    ∃ other, result = [other] ∧ other.Awaits known.Waits := by
  unfold Reduction.reduceApply at ran
  obtain ⟨task, between, ranTask, ran⟩ := bind_ok_iff.mp ran
  obtain ⟨bindings, reduced, ranBindings, ran⟩ := bind_ok_iff.mp ran
  have arguments := lingering.mapEntries (lingering.source source ranTask) ranBindings
  obtain ⟨part, parts, waiting⟩ :=
    Apply.expand_of_awaits
      (Apply.awaits_of_lingers awaits (lingering.lingers source ranTask) arguments)
  rw [parts, joinMap_singleton] at ran
  cases part with
  | keep kept => exact ⟨_, (Except.ok.inj (Prod.mk.inj ran).1).symm, waiting⟩
  | invoke invocation =>
      obtain ⟨⟨lambda, foreign⟩, unknown, waiting⟩ := waiting
      obtain ⟨output, _, _, ran⟩ :=
        bind_ok_iff.mp (show reduceInvocation recurse invocation reduced = _ from ran)
      simp only [foreign, unknown, Bool.false_eq_true, if_false] at ran
      exact ⟨_, (Except.ok.inj (Prod.mk.inj ran).1).symm, waiting⟩
  | reject error => simp [reducePart, reject, halt] at ran

/-- A term that waits comes to one term that waits, if to anything. -/
theorem Lingering.reduceTerm (lingering : Lingering known recurse)
    (awaits : term.Awaits known.Waits) (source : pass.source = known)
    (ran : Reduction.reduceTerm recurse term pass = (.ok result, after)) :
    ∃ other, result = [other] ∧ other.Awaits known.Waits := by
  cases awaits with
  | @ticket placeholder waiting =>
      have unknown : pass.source.outputs placeholder.ticket placeholder.channel = none :=
        source ▸ waiting
      refine ⟨.ticket placeholder, ?_, .ticket waiting⟩
      rw [Reduction.reduceTerm, Store.resolve_run, unknown] at ran
      exact (Except.ok.inj (Prod.mk.inj ran).1).symm
  | condition inside waiting =>
      rw [Reduction.reduceTerm, reduceCond_eq] at ran
      obtain ⟨condition, between, ranCondition, ran⟩ := bind_ok_iff.mp ran
      obtain ⟨inner, inside, waiting⟩ :=
        (lingering.lingers source ranCondition).awaits ⟨_, inside, waiting⟩
      obtain ⟨output, _, _, ran⟩ := bind_ok_iff.mp ran
      rw [closeCond_of_awaits _ ⟨inner, inside, waiting⟩] at ran
      obtain ⟨thenBlock, elseBlock, rfl⟩ := residualCond_ok ran
      exact ⟨_, rfl, .condition inside waiting⟩
  | @curried inner task bindings inside waiting =>
      unfold Reduction.reduceTerm reduceCurry at ran
      cases task with
      | nil => simp at inside
      | cons single others =>
          cases others with
          | nil =>
              obtain ⟨task, between, ranTask, ran⟩ := bind_ok_iff.mp ran
              obtain ⟨inner, inside, waiting⟩ :=
                (lingering.lingers source ranTask).awaits ⟨_, inside, waiting⟩
              obtain ⟨reduced, _, _, ran⟩ := bind_ok_iff.mp ran
              rw [closeCurry_of_awaits _ ⟨inner, inside, waiting⟩] at ran
              exact ⟨_, (Except.ok.inj (Prod.mk.inj ran).1).symm, .curried inside waiting⟩
          | cons =>
              exact ⟨_, (Except.ok.inj (Prod.mk.inj ran).1).symm, .curried inside waiting⟩
  | task inside waiting =>
      exact lingering.reduceApply ⟨_, _, _, _⟩ (.task inside waiting) source ran
  | iterated sole iterates bound inside waiting =>
      exact lingering.reduceApply ⟨_, _, _, _⟩
        (.iterated sole iterates bound inside waiting) source ran
  | excess takes among inside waiting =>
      exact lingering.reduceApply ⟨_, _, _, _⟩ (.excess takes among inside waiting) source ran
  | argument definite among inside waiting =>
      exact lingering.reduceApply ⟨_, _, _, _⟩
        (.argument definite among inside waiting) source ran

theorem Lingering.joinMap (lingering : Lingering known recurse)
    (source : pass.source = known)
    (ran : PassM.joinMap (Reduction.reduceTerm recurse) terms pass = (.ok result, after)) :
    Compound.Lingers known.Waits terms result := by
  induction terms generalizing pass after result with
  | nil =>
      obtain rfl := Except.ok.inj (Prod.mk.inj ran).1
      exact ⟨fun _ => rfl, id⟩
  | cons term rest ih =>
      unfold PassM.joinMap at ran
      obtain ⟨head, between, here, ran⟩ := bind_ok_iff.mp ran
      obtain ⟨tail, _, later, ran⟩ := bind_ok_iff.mp ran
      obtain rfl := Except.ok.inj (Prod.mk.inj ran).1
      have kept : between.source = known := by
        have follows := Pass.conservation_follows.reduceTerm lingering.follows term pass
        rw [here] at follows
        exact follows.source.trans source
      refine .append ⟨fun normal => ?_, fun waiting => ?_⟩ (ih kept later)
      · cases term with
        | str value => exact (Except.ok.inj (Prod.mk.inj here).1).symm
        | lambda value => exact (Except.ok.inj (Prod.mk.inj here).1).symm
        | _ => simp [Compound.isNormal, Term.isNormal] at normal
      · obtain ⟨inner, inside, waiting⟩ := waiting
        obtain ⟨other, rfl, still⟩ :=
          lingering.reduceTerm (List.mem_singleton.mp inside ▸ waiting) source here
        exact ⟨other, List.mem_singleton_self other, still⟩

theorem lingering_reduce (known : Store) (depth : Nat) :
    Lingering known (reduce depth) := by
  induction depth with
  | zero =>
      exact ⟨Pass.conservation_follows.reduce 0, fun _ ran => by simp [reduce, halt] at ran⟩
  | succ depth ih => exact ⟨Pass.conservation_follows.reduce (depth + 1), ih.joinMap⟩

end Reduction

end Passes

end TicketFlow
