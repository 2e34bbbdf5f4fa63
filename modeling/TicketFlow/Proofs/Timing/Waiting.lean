import TicketFlow.Proofs.Data.OrderedMap
import TicketFlow.Proofs.Reduction.Expansion

namespace TicketFlow

/-! Terms that wait for a ticket.

A placeholder without an output waits, and so does whatever cannot go on without
knowing its value: a conditional for its condition, a curry or an application for
its task, an application for the arguments that are combined, captured or passed
to a backend.  A term that waits is not a value.  Expanded, an application that
waits is left, rejected, or one invocation for which not all is known.
-/

variable {waits : Placeholder → Prop}

/-- Exactly one value under each iterated parameter. -/
def Invocation.Definite (invocation : Invocation) : Prop :=
  ∀ param ∈ invocation.lambda.prototype.iterated,
    ∃ value, value.isNormal = true ∧ invocation.bindings.get? param = some [value] ∧
    ∀ entry ∈ invocation.bindings, entry.1 = param → entry.2 = [value]

/-- The term cannot go on without the output of a placeholder that waits. -/
inductive Term.Awaits (waits : Placeholder → Prop) : Term → Prop where
  | ticket {placeholder : Placeholder} :
      waits placeholder → Awaits waits (.ticket placeholder)
  | condition {inner : Term} {condition : Compound} {prototype : Prototype}
      {channel : Nat} {thenBlock elseBlock : BlockId} :
      inner ∈ condition → Awaits waits inner →
      Awaits waits (.cond condition prototype channel thenBlock elseBlock)
  | curried {inner : Term} {task : Compound} {bindings : Bindings} :
      inner ∈ task → Awaits waits inner → Awaits waits (.curry (some task) bindings)
  | task {inner : Term} {task : Compound}
      {bindings : Bindings} {channel : Nat} {rest : Bool} :
      inner ∈ task → Awaits waits inner → Awaits waits (.apply task bindings channel rest)
  /-- Known tasks that iterate over an argument; the first of several decides how. -/
  | iterated {inner : Term} {first : Lambda} {others : List Lambda} {param : String}
      {value : Compound} {bindings : Bindings} {channel : Nat} {rest : Bool} :
      others = [] ∨ first.prototype.correlated = true → param ∈ first.prototype.iterated →
      bindings.get? param = some value → inner ∈ value → Awaits waits inner →
      Awaits waits (.apply (.lambda first :: others.map .lambda) bindings channel rest)
  | excess {inner : Term} {lambda : Lambda} {captures : String}
      {binding : String × Compound} {bindings : Bindings} {channel : Nat} :
      lambda.prototype.rest = some captures → binding ∈ lambda.prototype.excess bindings →
      inner ∈ binding.2 → Awaits waits inner →
      Awaits waits (.apply [.lambda lambda] bindings channel true)
  /-- One invocation of a foreign lambda, for which not all arguments are known. -/
  | argument {inner : Term} {lambda : ForeignLambda}
      {binding : String × Compound} {bindings : Bindings} {channel : Nat} :
      Invocation.Definite ⟨.foreign lambda, bindings, channel⟩ →
      binding ∈ bindings → inner ∈ binding.2 → Awaits waits inner →
      Awaits waits (.apply [.lambda (.foreign lambda)] bindings channel false)

/-- One of the alternatives waits. -/
def Compound.Awaits (waits : Placeholder → Prop) (terms : Compound) : Prop :=
  ∃ term ∈ terms, term.Awaits waits

variable {term : Term} {terms rest : Compound} {apply : Apply}

theorem Term.Awaits.not_normal (awaits : term.Awaits waits) : term.isNormal = false := by
  cases awaits <;> rfl

theorem Term.Awaits.ne_lambda (awaits : term.Awaits waits) (lambda : Lambda) :
    term ≠ .lambda lambda := fun same => by
  simpa [same, Term.isNormal] using awaits.not_normal

/-- The placeholders that wait, under a condition; otherwise none does. -/
abbrev WaitsIf (condition : Prop) (waits : Placeholder → Prop)
    (placeholder : Placeholder) : Prop :=
  condition ∧ waits placeholder

theorem Term.Awaits.mono {more : Placeholder → Prop}
    (within : ∀ placeholder, waits placeholder → more placeholder)
    (awaits : term.Awaits waits) : term.Awaits more := by
  induction awaits with
  | ticket waiting => exact .ticket (within _ waiting)
  | condition inside _ ih => exact .condition inside ih
  | curried inside _ ih => exact .curried inside ih
  | task inside _ ih => exact .task inside ih
  | iterated sole iterates bound inside _ ih =>
      exact .iterated sole iterates bound inside ih
  | excess takes among inside _ ih => exact .excess takes among inside ih
  | argument definite among inside _ ih => exact .argument definite among inside ih

theorem Term.Awaits.exists_waits (awaits : term.Awaits waits) :
    ∃ placeholder, waits placeholder := by
  induction awaits with
  | ticket waiting => exact ⟨_, waiting⟩
  | _ => assumption

theorem Compound.awaits_cons :
    Compound.Awaits waits (term :: rest) ↔
      term.Awaits waits ∨ Compound.Awaits waits rest := by
  simp [Compound.Awaits]

theorem Compound.awaits_append :
    Compound.Awaits waits (terms ++ rest) ↔
      Compound.Awaits waits terms ∨ Compound.Awaits waits rest := by
  simp [Compound.Awaits, or_and_right, exists_or]

theorem Compound.Awaits.not_normal (awaits : Compound.Awaits waits terms) :
    ¬Compound.isNormal terms = true := by
  intro normal
  obtain ⟨inner, inside, awaits⟩ := awaits
  exact Bool.false_ne_true
    (awaits.not_normal.symm.trans (List.all_eq_true.mp normal inner inside))

section Expansion

/-- Nothing but a term that waits can come of the part. -/
def Part.Awaits (waits : Placeholder → Prop) : Part → Prop
  | .keep kept => kept.toTerm.Awaits waits
  | .invoke invocation =>
      (∃ lambda, invocation.lambda = .foreign lambda) ∧
        invocation.toApply.areArgumentsNormal = false ∧
        invocation.toApply.toTerm.Awaits waits
  | .reject _ => True

/-- While a task waits, the application is left, or rejected for a value
among the tasks before it. -/
theorem Apply.expand_of_awaits_task (awaits : Compound.Awaits waits apply.task) :
    apply.expand = [.keep apply] ∨
      ∃ first others error, apply.task = .lambda first :: others ∧
        first.prototype.correlated = true ∧ apply.rest = false ∧
        Combination.tasksOf apply apply.task = .error (.rejected error) ∧
        apply.expand = [.reject error] := by
  obtain ⟨inner, inside, waiting⟩ := awaits
  rcases found : apply.task with _ | ⟨first, _ | ⟨second, others⟩⟩
  · simp [found] at inside
  · obtain rfl : inner = first := by simpa [found] using inside
    exact .inl (expand_other found waiting.ne_lambda)
  · have unknown : ¬Compound.isNormal apply.task = true :=
      Compound.Awaits.not_normal ⟨inner, inside, waiting⟩
    cases first with
    | lambda lambda =>
        by_cases correlated : lambda.prototype.correlated = true
        · have whole : apply.expand = apply.combine := by
            simp only [expand, found, correlated, if_true]
          cases left : apply.rest with
          | true => exact .inl (by simp [whole, combine, left])
          | false =>
              cases tasks : Combination.tasksOf apply apply.task with
              | ok lambdas =>
                  -- all tasks would be lambdas, among them the one that waits
                  rw [Combination.tasksOf_eq_ok_iff.mp tasks] at inside
                  obtain ⟨lambda, _, same⟩ := List.mem_map.mp inside
                  exact absurd same.symm (waiting.ne_lambda lambda)
              | error obstacle =>
                  have combined : Combination.ofApply apply = .error obstacle := by
                    simp only [Combination.ofApply, tasks]
                  cases obstacle with
                  | notDerivable term =>
                      exact .inl (by simp [whole, combine, left, combined])
                  | rejected error =>
                      exact .inr ⟨lambda, _, error, rfl, correlated, rfl,
                        by rw [← found, tasks], by simp [whole, combine, left, combined]⟩
        · refine .inl ?_
          have open_ : Compound.isNormal (.lambda lambda :: second :: others) = false := by
            simpa [found] using unknown
          simp only [expand, found, correlated, open_, Bool.false_eq_true, if_false]
    | _ => exact .inl (by simp only [expand, found])

/-- While an argument that is iterated over waits, the combination is left or rejected. -/
theorem Apply.combine_of_awaits {first : Lambda} {others : List Lambda} {param : String}
    {value : Compound} (tasks : apply.task = .lambda first :: others.map .lambda)
    (iterates : param ∈ first.prototype.iterated)
    (bound : apply.bindings.get? param = some value)
    (awaits : Compound.Awaits waits value) :
    apply.combine = [.keep apply] ∨ ∃ error, apply.combine = [.reject error] := by
  have known : Combination.tasksOf apply apply.task = .ok (first :: others) :=
    Combination.tasksOf_eq_ok_iff.mpr tasks
  cases left : apply.rest with
  | true => exact .inl (by simp [combine, left])
  | false =>
      cases checked : Combination.checkBound apply first.prototype.aggregates with
      | error obstacle =>
          obtain ⟨error, rfl⟩ := Combination.checkBound_error checked
          exact .inr ⟨error, by simp [combine, left, Combination.ofApply, known, checked]⟩
      | ok _ =>
          cases values : Combination.valuesOf apply first.prototype.iterated with
          | ok iterated =>
              obtain ⟨again, same, normal⟩ :=
                (Combination.valuesOf_eq_ok_iff.mp values).1 param iterates
              obtain rfl : value = again := Option.some.inj (bound.symm.trans same)
              exact absurd normal awaits.not_normal
          | error obstacle =>
              cases obstacle with
              | notDerivable term =>
                  exact .inl
                    (by simp [combine, left, Combination.ofApply, known, checked, values])
              | rejected error =>
                  exact .inr ⟨error,
                    by simp [combine, left, Combination.ofApply, known, checked, values]⟩

/-- The capture of excess arguments takes nothing from an argument that is iterated over. -/
theorem Apply.get?_captureRest {lambda : Lambda} {param : String}
    {value : Compound} (single : apply.task = [.lambda lambda])
    (iterates : param ∈ lambda.prototype.iterated)
    (bound : apply.bindings.get? param = some value)
    (awaits : Compound.Awaits waits value) :
    ∃ more, apply.captureRest.bindings.get? param = some more ∧
      Compound.Awaits waits more := by
  have declared : lambda.prototype.declares param = true := by
    obtain ⟨among, among_, rfl⟩ := List.mem_map.mp iterates
    simp only [Prototype.declares, Prototype.paramNames, List.contains_iff_mem,
      List.mem_append, List.mem_map]
    exact .inl ⟨among, List.mem_of_mem_filter among_, rfl⟩
  rw [captureRest_eq]
  split
  · cases complete : apply.captureRest? with
    | none => exact ⟨value, bound, awaits⟩
    | some captured =>
        obtain ⟨again, same, ⟨_, rfl⟩ | ⟨captures, _, _, rfl⟩⟩ :=
          captureRest?_eq_some_iff.mp complete
        · exact ⟨value, bound, awaits⟩
        · obtain rfl : lambda = again := by simpa [single] using same
          by_cases taken : captures = param
          · subst taken
            refine ⟨_, OrderedMap.get?_insert_self, Compound.awaits_append.mpr (.inl ?_)⟩
            rwa [bound]
          · refine ⟨value, ?_, awaits⟩
            have kept :
                (lambda.prototype.declared apply.bindings).get? param = some value := by
              rw [Prototype.declared, OrderedMap.get?_filter, if_pos declared, bound]
            simp only [Option.getD_some, capture, OrderedMap.get?_insert, taken, if_false,
              OrderedMap.get?_erase, kept]
  · exact ⟨value, bound, awaits⟩

theorem Apply.awaits_iterated {first : Lambda} {others : List Lambda} {param : String}
    {value : Compound} (tasks : apply.task = .lambda first :: others.map .lambda)
    (sole : others = [] ∨ first.prototype.correlated = true)
    (iterates : param ∈ first.prototype.iterated)
    (bound : apply.bindings.get? param = some value)
    (awaits : Compound.Awaits waits value) : apply.toTerm.Awaits waits := by
  obtain ⟨inner, inside, waiting⟩ := awaits
  rw [toTerm, tasks]
  exact .iterated sole iterates bound inside waiting

/-- One invocation of a foreign lambda is left to wait, or rejected for a
parameter without an argument. -/
theorem Apply.expand_of_awaits_argument {lambda : ForeignLambda}
    {binding : String × Compound} {bindings : Bindings} {channel : Nat}
    (definite : Invocation.Definite ⟨.foreign lambda, bindings, channel⟩)
    (among : binding ∈ bindings) (awaits : Compound.Awaits waits binding.2) :
    ∃ part, expand ⟨[.lambda (.foreign lambda)], bindings, channel, false⟩ = [part] ∧
      part.Awaits waits := by
  have unknown : areArgumentsNormal
      ⟨[.lambda (.foreign lambda)], bindings, channel, false⟩ = false := by
    rw [← Bool.not_eq_true]
    exact fun normal => awaits.not_normal (List.all_eq_true.mp normal binding among)
  cases checked : Combination.checkBound ⟨[.lambda (.foreign lambda)], bindings, channel,
    false⟩ lambda.prototype.aggregates with
  | ok _ =>
      have single : Invocation.Single ⟨.foreign lambda, bindings, channel⟩ :=
        ⟨Combination.checkBound_eq_ok_iff.mp checked, definite⟩
      obtain ⟨inner, inside, waiting⟩ := awaits
      exact ⟨_, expand_toApply single,
        ⟨lambda, rfl⟩, unknown, .argument definite among inside waiting⟩
  | error obstacle =>
      obtain ⟨error, rfl⟩ := Combination.checkBound_error checked
      have combined :
          Combination.ofApply ⟨[.lambda (.foreign lambda)], bindings, channel, false⟩ =
            .error (.rejected error) := by
        simp only [Combination.ofApply, Combination.tasksOf, Except.map]
        rw [Lambda.prototype, checked]
      have single : Apply.task ⟨[.lambda (.foreign lambda)], bindings, channel, false⟩ =
          [.lambda (.foreign lambda)] := rfl
      refine ⟨.reject error, ?_, trivial⟩
      rw [expand_lambda single, captureRest_of_whole rfl]
      simp only [combine, combined, Bool.false_eq_true, if_false]

/-- An application that waits comes to one part, and nothing but a term that
waits can come of it. -/
theorem Apply.expand_of_awaits (awaits : apply.toTerm.Awaits waits) :
    ∃ part, apply.expand = [part] ∧ part.Awaits waits := by
  obtain ⟨task, bindings, channel, rest⟩ := apply
  cases awaits with
  | task inside waiting =>
      have tasks : Compound.Awaits waits (Apply.task ⟨task, bindings, channel, rest⟩) :=
        ⟨_, inside, waiting⟩
      rcases expand_of_awaits_task tasks with
        left | ⟨_, _, error, _, _, _, _, parts⟩
      · exact ⟨_, left, .task inside waiting⟩
      · exact ⟨_, parts, trivial⟩
  | @iterated inner first others param value _ _ _ sole iterates bound inside waiting =>
      have still {apply : Apply} {value : Compound}
          (tasks : apply.task = .lambda first :: others.map .lambda)
          (bound : apply.bindings.get? param = some value)
          (awaits : Compound.Awaits waits value) : ∃ part, apply.combine = [part] ∧
          part.Awaits waits := by
        rcases combine_of_awaits tasks iterates bound awaits with left | ⟨error, parts⟩
        · exact ⟨_, left, awaits_iterated tasks sole iterates bound awaits⟩
        · exact ⟨_, parts, trivial⟩
      cases others with
      | nil =>
          have single :
              Apply.task ⟨.lambda first :: [].map .lambda, bindings, channel, rest⟩ =
                [.lambda first] := rfl
          obtain ⟨more, found, awaits⟩ :=
            get?_captureRest single iterates bound ⟨inner, inside, waiting⟩
          rw [expand_lambda single]
          exact still task_captureRest found awaits
      | cons second others =>
          have correlated : first.prototype.correlated = true :=
            sole.resolve_left (List.cons_ne_nil second others)
          have whole : expand ⟨.lambda first :: (second :: others).map .lambda, bindings,
              channel, rest⟩ = combine ⟨.lambda first :: (second :: others).map .lambda,
              bindings, channel, rest⟩ := by
            simp only [expand, List.map_cons, correlated, if_true]
          rw [whole]
          exact still rfl bound ⟨inner, inside, waiting⟩
  | @excess inner lambda captures binding _ _ takes among inside waiting =>
      have unknown : ¬((lambda.prototype.excess bindings).all
          fun binding => Compound.isNormal binding.2) = true := by
        intro normal
        exact Compound.Awaits.not_normal ⟨inner, inside, waiting⟩
          (List.all_eq_true.mp normal binding among)
      have waits_ : captureRest ⟨[.lambda lambda], bindings, channel, true⟩ =
          ⟨[.lambda lambda], bindings, channel, true⟩ := by
        simp only [captureRest_eq, captureRest?, takes, unknown, if_true]
        rfl
      have single : Apply.task ⟨[.lambda lambda], bindings, channel, true⟩ =
          [.lambda lambda] := rfl
      refine ⟨.keep ⟨[.lambda lambda], bindings, channel, true⟩, ?_,
        .excess takes among inside waiting⟩
      rw [expand_lambda single, waits_]
      rfl
  | argument definite among inside waiting =>
      exact expand_of_awaits_argument definite among ⟨_, inside, waiting⟩

end Expansion

end TicketFlow
