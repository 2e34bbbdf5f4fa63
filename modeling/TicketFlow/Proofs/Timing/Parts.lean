import TicketFlow.Proofs.Reduction.Scoping
import TicketFlow.Proofs.Timing.Combining

namespace TicketFlow

/-! Applications expanded before and after more is known.

The parts of an application are the same with less known, except that a part that
is left because something waits stands for any number of parts.  A part that is
rejected with less known is rejected with more known.
-/

variable {waits : Placeholder → Prop} {pairs : BlockId → BlockId → Prop}
  {apply other : Apply}

inductive Part.Alike (waits : Placeholder → Prop) (pairs : BlockId → BlockId → Prop) :
    Part → Part → Prop where
  | keep {kept late : Apply} :
      kept.Alike waits pairs late → Part.Alike waits pairs (.keep kept) (.keep late)
  | invoke {invocation late : Invocation} :
      invocation.Alike waits pairs late →
      Part.Alike waits pairs (.invoke invocation) (.invoke late)

theorem Part.Alike.mono {part late : Part} {wider : BlockId → BlockId → Prop}
    (alike : part.Alike waits pairs late) (within : pairs ≤ wider) :
    part.Alike waits wider late := by
  cases alike with
  | keep kept => exact .keep (kept.mono within)
  | invoke invocations => exact .invoke (invocations.mono within)

/-- An application that waits stands for any parts, another part for one that is alike;
nothing is said about what comes after a rejection. -/
inductive Parts.Foreshadow (waits : Placeholder → Prop)
    (pairs : BlockId → BlockId → Prop) : List Part → List Part → Prop where
  | nil : Foreshadow waits pairs [] []
  | waiting {kept : Apply} {rest part late : List Part} :
      kept.toTerm.Awaits waits → Foreshadow waits pairs rest late →
      Foreshadow waits pairs (.keep kept :: rest) (part ++ late)
  | alike {part other : Part} {rest late : List Part} :
      part.Alike waits pairs other → Foreshadow waits pairs rest late →
      Foreshadow waits pairs (part :: rest) (other :: late)
  | reject {error errorLate : ReduceError} {rest late : List Part} :
      Foreshadow waits pairs (.reject error :: rest) (.reject errorLate :: late)

namespace Parts

variable {parts partsLate rest late : List Part}

theorem foreshadow_of_awaits {kept : Apply} (awaits : kept.toTerm.Awaits waits)
    (late : List Part) : Foreshadow waits pairs [.keep kept] late := by
  have whole : Foreshadow waits pairs [.keep kept] (late ++ []) := .waiting awaits .nil
  rwa [List.append_nil] at whole

theorem foreshadow_keep (alike : apply.Alike waits pairs other) :
    Foreshadow waits pairs [.keep apply] [.keep other] :=
  .alike (.keep alike) .nil

theorem Foreshadow.mono {wider : BlockId → BlockId → Prop}
    (foreshadow : Foreshadow waits pairs parts partsLate) (within : pairs ≤ wider) :
    Foreshadow waits wider parts partsLate := by
  induction foreshadow with
  | nil => exact .nil
  | waiting awaits _ ih => exact .waiting awaits ih
  | alike here _ ih => exact .alike (here.mono within) ih
  | reject => exact .reject

theorem Foreshadow.append (first : Foreshadow waits pairs parts partsLate)
    (second : Foreshadow waits pairs rest late) :
    Foreshadow waits pairs (parts ++ rest) (partsLate ++ late) := by
  induction first with
  | nil => exact second
  | waiting awaits _ ih =>
      rw [List.append_assoc]
      exact .waiting awaits ih
  | alike here _ ih => exact .alike here ih
  | reject => exact .reject

end Parts

namespace Apply.Alike

open Parts

variable {lambda lambdaLate : Lambda} {term termLate : Term}

section Capture

/-- What becomes of an application of one task that waits for its excess arguments. -/
theorem captureRest_of_rest {apply : Apply} {lambda : Lambda} {captures : String}
    (single : apply.task = [.lambda lambda]) (flag : apply.rest = true)
    (takes : lambda.prototype.rest = some captures) : apply.captureRest =
      if (lambda.prototype.excess apply.bindings).all
        fun binding => Compound.isNormal binding.2
      then apply.capture lambda.prototype captures else apply := by
  simp only [captureRest_eq, flag, captureRest?, single, takes, if_true]
  split
  · simp only [Option.getD_some, capture, single]
  · rfl

theorem capture (alike : apply.Alike waits pairs other)
    (prototype : Prototype) (captures : String) :
    (apply.capture prototype captures).Alike waits pairs
      (other.capture prototype captures) where
  task := alike.task
  bindings := by
    have before : Compound.Foreshadows waits pairs ((apply.bindings.get? captures).getD [])
        ((other.bindings.get? captures).getD []) := by
      have bound := alike.bindings.get? captures
      generalize apply.bindings.get? captures = early,
        other.bindings.get? captures = late at bound
      cases bound with
      | none => exact .nil
      | some values => exact values
    have excess : Bindings.Foreshadows waits pairs (prototype.excess apply.bindings)
        (prototype.excess other.bindings) :=
      alike.bindings.filter fun name => !prototype.declares name
    exact ((alike.bindings.filter prototype.declares).erase).insert
      (before.append excess.flatten)
  distinct := (alike.distinct.filter _).erase.insert
  channel := alike.channel
  rest := rfl

/-- Excess arguments are captured on both sides or on neither, unless one of them waits. -/
theorem captureRest (alike : apply.Alike waits pairs other)
    (single : apply.task = [.lambda lambda])
    (singleLate : other.task = [.lambda lambdaLate])
    (lambdas : lambda.Alike pairs lambdaLate) :
    (apply.toTerm.Awaits waits ∧ apply.captureRest = apply ∧ apply.rest = true) ∨
      apply.captureRest.Alike waits pairs other.captureRest := by
  by_cases flag : apply.rest = true
  · have flagLate : other.rest = true := alike.rest.trans flag
    cases takes : lambda.prototype.rest with
    | none =>
        rw [captureRest_of_restless single takes,
          captureRest_of_restless singleLate (lambdas.prototype ▸ takes)]
        exact .inr { alike with rest := rfl }
    | some captures =>
        rw [captureRest_of_rest single flag takes,
          captureRest_of_rest singleLate flagLate (lambdas.prototype ▸ takes),
          lambdas.prototype]
        have excess :
            Bindings.Foreshadows waits pairs (lambda.prototype.excess apply.bindings)
              (lambda.prototype.excess other.bindings) :=
          alike.bindings.filter fun name => !lambda.prototype.declares name
        by_cases normal : ((lambda.prototype.excess apply.bindings).all
          fun binding => Compound.isNormal binding.2) = true
        · rw [if_pos normal, if_pos (excess.normal normal)]
          exact .inr (alike.capture lambda.prototype captures)
        · rw [if_neg normal]
          by_cases awaits : Bindings.Awaits waits (lambda.prototype.excess apply.bindings)
          · obtain ⟨binding, among, inner, inside, waiting⟩ := awaits
            refine .inl ⟨?_, rfl, flag⟩
            rw [Apply.toTerm, single, flag]
            exact .excess takes among inside waiting
          · rw [if_neg (excess.not_normal awaits normal)]
            exact .inr alike
  · have whole : apply.rest = false := Bool.eq_false_iff.mpr flag
    rw [captureRest_of_whole whole, captureRest_of_whole (alike.rest.trans whole)]
    exact .inr alike

end Capture

theorem combine (alike : apply.Alike waits pairs other)
    (sole : ∃ first others, apply.task = .lambda first :: others ∧
      (others = [] ∨ first.prototype.correlated = true)) :
    Foreshadow waits pairs apply.combine other.combine := by
  cases flag : apply.rest with
  | true => simpa [Apply.combine, flag, alike.rest] using foreshadow_keep alike
  | false =>
      rcases Combination.ofApply_foreshadows alike sole with
        ⟨combination, late, combined, combinedLate, same⟩ |
          ⟨error, errorLate, rejected, rejectedLate⟩ | ⟨term, waits_, left⟩
      · simp only [Apply.combine, flag, alike.rest, combined, combinedLate,
          Bool.false_eq_true, if_false, Combination.invocations, same.cardinality]
        induction List.range combination.cardinality with
        | nil => exact .nil
        | cons index rest ih =>
            have here := same.invocation? index
            rw [List.filterMap_cons, List.filterMap_cons]
            generalize combination.invocation? index = early,
              late.invocation? index = found at here
            cases here with
            | none => exact ih
            | some invocations => exact .alike (.invoke invocations) ih
      · simp only [Apply.combine, flag, alike.rest, rejected, rejectedLate,
          Bool.false_eq_true, if_false]
        exact .reject
      · have kept : apply.combine = [.keep apply] := by
          simp only [Apply.combine, flag, waits_, Bool.false_eq_true, if_false]
        rw [kept]
        rcases left with awaits | ⟨termLate, waitsLate⟩
        · exact foreshadow_of_awaits awaits _
        · simpa [Apply.combine, flag, alike.rest, waitsLate] using foreshadow_keep alike

/-- One task, on both sides. -/
theorem expand_single (alike : apply.Alike waits pairs other)
    (single : apply.task = [term]) (singleLate : other.task = [termLate])
    (terms : term.Alike waits pairs termLate) :
    Foreshadow waits pairs apply.expand other.expand := by
  rcases terms.lambda_cases with
      ⟨lambda, lambdaLate, rfl, rfl, lambdas⟩ | ⟨unlike, unlikeLate⟩
  · rw [expand_lambda single, expand_lambda singleLate]
    rcases alike.captureRest single singleLate lambdas with ⟨awaits, stays, flag⟩ | captured
    · have kept : apply.captureRest.combine = [.keep apply] := by
        simp [stays, Apply.combine, flag]
      rw [kept]
      exact foreshadow_of_awaits awaits _
    · exact captured.combine ⟨lambda, [], task_captureRest.trans single, .inl rfl⟩
  · rw [expand_other single unlike, expand_other singleLate unlikeLate]
    exact foreshadow_keep alike

theorem only (alike : apply.Alike waits pairs other)
    (terms : term.Alike waits pairs termLate) :
    (apply.only term).Alike waits pairs (other.only termLate) :=
  { alike with task := terms.single }

/-- Several tasks, one by one on both sides. -/
theorem expand_each (alike : apply.Alike waits pairs other) {tasks tasksLate : Compound}
    (terms : List.Forall₂ (Term.Alike waits pairs) tasks tasksLate) :
    Foreshadow waits pairs (tasks.flatMap fun task => (apply.only task).expand)
      (tasksLate.flatMap fun task => (other.only task).expand) := by
  induction terms with
  | nil => exact .nil
  | cons here _ ih =>
      rw [List.flatMap_cons, List.flatMap_cons]
      exact ((alike.only here).expand_single rfl rfl here).append ih

/-- While a task waits the application is left, or it is rejected on both sides. -/
theorem expand_of_awaits_task (alike : apply.Alike waits pairs other)
    (awaits : apply.task.Awaits waits) :
    Foreshadow waits pairs apply.expand other.expand := by
  rcases Apply.expand_of_awaits_task awaits with
      left | ⟨first, others, error, task, correlated, whole, rejected, parts⟩
  · obtain ⟨inner, inside, waiting⟩ := awaits
    rw [left]
    exact foreshadow_of_awaits (.task inside waiting) _
  · obtain ⟨errorLate, rejectedLate⟩ : ∃ errorLate,
        Combination.tasksOf other other.task = .error (.rejected errorLate) := by
      rcases Combination.tasksOf_foreshadows apply other alike.task with
        ⟨_, _, known, _⟩ | ⟨_, errorLate, _, rejectedLate⟩ | ⟨_, open_, _⟩
      · simp [rejected] at known
      · exact ⟨errorLate, rejectedLate⟩
      · simp [rejected] at open_
    have tasks := alike.task
    rw [task] at tasks
    -- the first task is a lambda late as well, and not the only one: nothing else is a value
    obtain ⟨lambda, second, rest, taskLate, sameFirst⟩ : ∃ lambda second rest,
        other.task = .lambda lambda :: second :: rest ∧ first.Alike pairs lambda := by
      generalize other.task = late at tasks rejectedLate
      cases tasks with
      | waiting waiting _ => exact absurd rfl (waiting.ne_lambda first)
      | @alike _ twin _ late terms _ =>
          rcases terms.lambda_cases with ⟨_, lambda, same, rfl, lambdas⟩ | ⟨unlike, _⟩
          · obtain rfl := Term.lambda.inj same
            cases late with
            | nil => simp [Combination.tasksOf, Except.map] at rejectedLate
            | cons second rest => exact ⟨lambda, second, rest, rfl, lambdas⟩
          · exact absurd rfl (unlike first)
    have combined : Combination.ofApply other = .error (.rejected errorLate) := by
      simp only [Combination.ofApply, rejectedLate]
    have partsLate : other.expand = [.reject errorLate] := by
      have correlatedLate : lambda.prototype.correlated = true :=
        sameFirst.prototype ▸ correlated
      have through : other.expand = other.combine := by
        simp only [expand, taskLate, correlatedLate, if_true]
      rw [through]
      simp only [Apply.combine, alike.rest, whole, combined, Bool.false_eq_true, if_false]
    rw [parts, partsLate]
    exact .reject

theorem expand (alike : apply.Alike waits pairs other) :
    Foreshadow waits pairs apply.expand other.expand := by
  by_cases awaits : apply.task.Awaits waits
  · exact alike.expand_of_awaits_task awaits
  · have terms := alike.task.forall₂ awaits
    have same := Compound.isNormal_of_forall₂ terms
    generalize task : apply.task = tasks, taskLate : other.task = tasksLate at terms same
    match terms with
    | .nil =>
        simp only [Apply.expand, task, taskLate]
        exact .nil
    | .cons here .nil => exact alike.expand_single task taskLate here
    | .cons here (.cons next rest) =>
        rcases here.lambda_cases with
            ⟨lambda, lambdaLate, rfl, rfl, lambdas⟩ | ⟨unlike, unlikeLate⟩
        · simp only [Apply.expand, task, taskLate, lambdas.prototype, same]
          split
          next correlated => exact alike.combine ⟨lambda, _, task, .inr correlated⟩
          next =>
            split
            · exact alike.expand_each (.cons here (.cons next rest))
            · exact foreshadow_keep alike
        · have stays {apply : Apply} {first second : Term}
              {others : Compound} (unlike : ∀ lambda, first ≠ .lambda lambda)
              (task : apply.task = first :: second :: others) :
              apply.expand = [.keep apply] := by
            cases first with
            | lambda lambda => exact absurd rfl (unlike lambda)
            | _ => simp only [Apply.expand, task]
          rw [stays unlike task, stays unlikeLate taskLate]
          exact foreshadow_keep alike

end Apply.Alike

end TicketFlow
