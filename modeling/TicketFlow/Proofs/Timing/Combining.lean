import TicketFlow.Proofs.Reduction.Contract
import TicketFlow.Proofs.Timing.Foreshadow

namespace TicketFlow

/-! Arguments combined before and after more is known.

As long as a task or an argument that is iterated over waits, no invocations are
made.  Otherwise there are as many as with more known, of the same tasks with the
same values, and what is rejected with less known is rejected with more known.
-/

variable {waits : Placeholder → Prop} {pairs : BlockId → BlockId → Prop}
  {apply other : Apply}

/-- The same application, with what is inside foreshadowing what is inside the other. -/
structure Apply.Alike (waits : Placeholder → Prop) (pairs : BlockId → BlockId → Prop)
    (apply other : Apply) : Prop where
  task : apply.task.Foreshadows waits pairs other.task
  bindings : Bindings.Foreshadows waits pairs apply.bindings other.bindings
  distinct : OrderedMap.Distinct apply.bindings
  channel : other.channel = apply.channel
  rest : other.rest = apply.rest

structure Invocation.Alike (waits : Placeholder → Prop) (pairs : BlockId → BlockId → Prop)
    (invocation other : Invocation) : Prop where
  lambda : invocation.lambda.Alike pairs other.lambda
  bindings : Bindings.Foreshadows waits pairs invocation.bindings other.bindings
  distinct : OrderedMap.Distinct invocation.bindings
  channel : other.channel = invocation.channel

theorem Apply.Alike.mono {wider : BlockId → BlockId → Prop}
    (alike : apply.Alike waits pairs other) (within : pairs ≤ wider) :
    apply.Alike waits wider other :=
  { alike with task := alike.task.mono within, bindings := alike.bindings.mono within }

theorem Invocation.Alike.mono {wider : BlockId → BlockId → Prop}
    {invocation late : Invocation} (alike : invocation.Alike waits pairs late)
    (within : pairs ≤ wider) : invocation.Alike waits wider late :=
  { alike with lambda := alike.lambda.mono within, bindings := alike.bindings.mono within }

theorem Apply.Alike.toTerm (alike : apply.Alike waits pairs other) :
    apply.toTerm.Alike waits pairs other.toTerm := by
  have same : other.toTerm = .apply other.task other.bindings apply.channel apply.rest := by
    rw [Apply.toTerm, alike.channel, alike.rest]
  rw [same]
  exact .apply alike.task alike.bindings alike.distinct

theorem Invocation.Alike.toApply {invocation late : Invocation}
    (alike : invocation.Alike waits pairs late) :
    invocation.toApply.Alike waits pairs late.toApply where
  task := (Term.Alike.lambda alike.lambda).single
  bindings := alike.bindings
  distinct := alike.distinct
  channel := alike.channel
  rest := rfl

section Foreign

variable {lambda : ForeignLambda} {invocation invocationLate : Invocation}

/-- An invocation that a backend accepts late waits early if one of its arguments does. -/
theorem awaits_of_iterated {bindings bindingsLate : Bindings} (channel : Nat)
    (arguments : Bindings.Foreshadows waits pairs bindings bindingsLate)
    (distinct : OrderedMap.Distinct bindings)
    (each : ∀ param ∈ lambda.prototype.iterated, ∃ value, value.isNormal = true ∧
      bindingsLate.get? param = some [value]) (awaits : Bindings.Awaits waits bindings) :
    Term.Awaits waits (.apply [.lambda (.foreign lambda)] bindings channel false) := by
  by_cases among : ∃ param ∈ lambda.prototype.iterated,
    ∃ value, bindings.get? param = some value ∧ value.Awaits waits
  · obtain ⟨param, iterates, value, bound, inner, inside, waiting⟩ := among
    have alone : ([] : List Lambda) = [] ∨
        (Lambda.foreign lambda).prototype.correlated = true := .inl rfl
    exact Term.Awaits.iterated alone iterates bound inside waiting
  · obtain ⟨binding, listed, inner, inside, waiting⟩ := awaits
    refine .argument (fun param iterates => ?_) listed inside waiting
    obtain ⟨late, normal, boundLate⟩ := each param iterates
    cases bound : bindings.get? param with
    | none => simp [arguments.get?_none bound] at boundLate
    | some value =>
        obtain ⟨_, found, foreshadows⟩ := arguments.get?_some bound
        obtain rfl := Option.some.inj (found.symm.trans boundLate)
        -- nothing in the early argument waits, so it is one value as well
        have alike :=
          foreshadows.forall₂ fun awaits => among ⟨param, iterates, value, bound, awaits⟩
        cases alike with
        | @cons term _ _ _ here rest =>
            cases rest
            refine ⟨term, here.isNormal.symm.trans normal, rfl, fun entry member named => ?_⟩
            have stored := (OrderedMap.mem_iff_get? distinct).mp member
            rw [named, bound] at stored
            exact (Option.some.inj stored).symm

/-- An invocation that the backend accepts late is one of the same lambda early. -/
theorem Invocation.Alike.foreign (alike : invocation.Alike waits pairs invocationLate)
    (accepted : invocationLate.toApply.foreignTask = .ok lambda) :
    invocation.lambda = .foreign lambda := by
  have lambdas := alike.lambda
  rw [Invocation.lambda_of_foreignTask accepted] at lambdas
  generalize invocation.lambda = other at lambdas
  cases lambdas
  rfl

theorem Invocation.Alike.awaits (alike : invocation.Alike waits pairs invocationLate)
    (accepted : invocationLate.toApply.foreignTask = .ok lambda)
    (awaits : Bindings.Awaits waits invocation.bindings) :
    invocation.toApply.toTerm.Awaits waits := by
  obtain ⟨_, iterated, _⟩ := Apply.foreignTask_ok accepted
  have waiting :=
    awaits_of_iterated invocation.channel alike.bindings alike.distinct
      (Apply.checkAllIterated_ok iterated) awaits
  rwa [← alike.foreign accepted] at waiting

/-- If nothing waits it is the same: all of its arguments are strings. -/
theorem Invocation.Alike.toApply_eq (alike : invocation.Alike waits pairs invocationLate)
    (accepted : invocationLate.toApply.foreignTask = .ok lambda)
    (known : ¬Bindings.Awaits waits invocation.bindings) :
    invocation.toApply = invocationLate.toApply := by
  obtain ⟨_, _, literals⟩ := Apply.foreignTask_ok accepted
  have same : invocation.bindings = invocationLate.bindings :=
    Bindings.eq_of_strs alike.bindings known (Apply.checkLiterals_ok literals)
  simp only [Invocation.toApply, alike.foreign accepted,
    Invocation.lambda_of_foreignTask accepted, same, alike.channel]

end Foreign

theorem forall₂_getElem? {α β : Type} {r : α → β → Prop} {left : List α}
    {right : List β} (related : List.Forall₂ r left right) (index : Nat) :
    Option.Rel r left[index]? right[index]? := by
  induction related generalizing index with
  | nil => exact .none
  | cons here _ ih =>
      cases index with
      | zero => exact .some here
      | succ index => simpa using ih index

namespace Combination

section Known

theorem tasksOf_other {term : Term} (unlike : ∀ lambda, term ≠ .lambda lambda)
    (rest : Compound) : tasksOf apply (term :: rest) =
      if term.isNormal then .error (.rejected (.notLambda apply.toTerm term)) else
        .error (.notDerivable term) := by
  cases term with
  | lambda lambda => exact absurd rfl (unlike lambda)
  | _ => rfl

/-- The tasks are as many and the same, or one is a value on both sides, or one waits or
is not known late either. -/
theorem tasksOf_foreshadows (apply other : Apply) {task late : Compound}
    (foreshadows : task.Foreshadows waits pairs late) :
    (∃ tasks others, tasksOf apply task = .ok tasks ∧ tasksOf other late = .ok others ∧
        List.Forall₂ (Lambda.Alike pairs) tasks others) ∨
      (∃ error errorLate, tasksOf apply task = .error (.rejected error) ∧
        tasksOf other late = .error (.rejected errorLate)) ∨
      ∃ term, tasksOf apply task = .error (.notDerivable term) ∧
      (task.Awaits waits ∨
        ∃ termLate, tasksOf other late = .error (.notDerivable termLate)) := by
  induction task generalizing late with
  | nil =>
      cases foreshadows
      exact .inl ⟨[], [], rfl, rfl, .nil⟩
  | cons term rest ih =>
      cases foreshadows with
      | waiting awaits _ =>
          refine .inr (.inr ⟨term, ?_, .inl ⟨term, List.mem_cons_self, awaits⟩⟩)
          rw [tasksOf_other awaits.ne_lambda, awaits.not_normal]
          rfl
      | @alike _ twin _ late alike others =>
          rcases alike.lambda_cases with
              ⟨lambda, lambdaLate, rfl, rfl, lambdas⟩ | ⟨unlike, unlikeLate⟩
          · rcases ih others with ⟨tasks, tasksLate, here, there, same⟩ |
                ⟨error, errorLate, here, there⟩ | ⟨open_, here, left⟩
            · exact .inl ⟨lambda :: tasks, lambdaLate :: tasksLate,
                by simp [tasksOf, here, Except.map], by simp [tasksOf, there, Except.map],
                .cons lambdas same⟩
            · exact .inr (.inl ⟨error, errorLate, by simp [tasksOf, here, Except.map],
                by simp [tasksOf, there, Except.map]⟩)
            · refine .inr (.inr ⟨open_, by simp [tasksOf, here, Except.map], ?_⟩)
              rcases left with awaits | ⟨openLate, there⟩
              · exact .inl (Compound.awaits_cons.mpr (.inr awaits))
              · exact .inr ⟨openLate, by simp [tasksOf, there, Except.map]⟩
          · rw [tasksOf_other unlike, tasksOf_other unlikeLate, alike.isNormal]
            by_cases normal : term.isNormal = true
            · exact .inr (.inl ⟨_, _, by rw [if_pos normal], by rw [if_pos normal]⟩)
            · exact .inr (.inr ⟨_, by rw [if_neg normal], .inr ⟨_, by rw [if_neg normal]⟩⟩)

theorem checkBound_foreshadows
    (arguments : Bindings.Foreshadows waits pairs apply.bindings other.bindings)
    (params : List String) :
    (checkBound apply params = .ok () ∧ checkBound other params = .ok ()) ∨
      ∃ error errorLate, checkBound apply params = .error (.rejected error) ∧
        checkBound other params = .error (.rejected errorLate) := by
  have same : checkBound other params = .ok () ↔ checkBound apply params = .ok () := by
    simp only [checkBound_eq_ok_iff, arguments.contains]
  cases early : checkBound apply params with
  | ok _ => exact .inl ⟨rfl, same.mpr early⟩
  | error obstacle =>
      obtain ⟨error, rfl⟩ := checkBound_error early
      cases late : checkBound other params with
      | ok _ => simp [same.mp late] at early
      | error obstacle =>
          obtain ⟨errorLate, rfl⟩ := checkBound_error late
          exact .inr ⟨error, errorLate, rfl, rfl⟩

theorem numAtoms_of_not_normal {value : Compound}
    (unknown : ¬Compound.isNormal value = true) :
    ∃ term, Compound.numAtoms value = .error term := by
  cases atoms : Compound.numAtoms value with
  | error term => exact ⟨term, rfl⟩
  | ok count => exact absurd (Compound.isNormal_of_numAtoms atoms) unknown

/-- The values are as many and alike, or an argument is missing on both sides, or one
waits or is not known late either. -/
theorem valuesOf_foreshadows
    (arguments : Bindings.Foreshadows waits pairs apply.bindings other.bindings)
    (params : List String) :
    (∃ iterated others, valuesOf apply params = .ok iterated ∧
      valuesOf other params = .ok others ∧
      OrderedMap.Matches (List.Forall₂ (Term.Alike waits pairs)) iterated others) ∨
      (∃ error errorLate, valuesOf apply params = .error (.rejected error) ∧
        valuesOf other params = .error (.rejected errorLate)) ∨
      ∃ term, valuesOf apply params = .error (.notDerivable term) ∧
        ((∃ param ∈ params,
          ∃ value, apply.bindings.get? param = some value ∧ value.Awaits waits) ∨
          ∃ termLate, valuesOf other params = .error (.notDerivable termLate)) := by
  induction params with
  | nil => exact .inl ⟨[], [], rfl, rfl, .nil⟩
  | cons param rest ih =>
      cases bound : apply.bindings.get? param with
      | none =>
          have boundLate := arguments.get?_none bound
          exact .inr (.inl ⟨_, _, by rw [valuesOf, bound], by rw [valuesOf, boundLate]⟩)
      | some value =>
          obtain ⟨late, boundLate, foreshadows⟩ := arguments.get?_some bound
          by_cases normal : Compound.isNormal value = true
          · have values := foreshadows.values normal
            have atoms := Compound.numAtoms_of_isNormal normal
            have atomsLate :=
              Compound.numAtoms_of_isNormal
                ((Compound.isNormal_of_forall₂ values).trans normal)
            rcases ih with ⟨iterated, others, here, there, same⟩ |
                ⟨error, errorLate, here, there⟩ | ⟨term, here, left⟩
            · exact .inl ⟨(param, value) :: iterated, (param, late) :: others,
                by simp [valuesOf, bound, atoms, here, Except.map],
                by simp [valuesOf, boundLate, atomsLate, there, Except.map], .cons values same⟩
            · exact .inr
                (.inl ⟨error, errorLate, by simp [valuesOf, bound, atoms, here, Except.map],
                  by simp [valuesOf, boundLate, atomsLate, there, Except.map]⟩)
            · refine .inr (.inr ⟨term, by simp [valuesOf, bound, atoms, here, Except.map], ?_⟩)
              rcases left with ⟨param, among, awaits⟩ | ⟨termLate, there⟩
              · exact .inl ⟨param, List.mem_cons_of_mem _ among, awaits⟩
              · exact .inr
                  ⟨termLate, by simp [valuesOf, boundLate, atomsLate, there, Except.map]⟩
          · obtain ⟨term, atoms⟩ := numAtoms_of_not_normal normal
            refine .inr (.inr ⟨term, by simp [valuesOf, bound, atoms], ?_⟩)
            by_cases awaits : value.Awaits waits
            · exact .inl ⟨param, List.mem_cons_self, value, bound, awaits⟩
            · obtain ⟨termLate, atomsLate⟩ :=
                numAtoms_of_not_normal (foreshadows.not_normal awaits normal)
              exact .inr ⟨termLate, by simp [valuesOf, boundLate, atomsLate]⟩

end Known

section Picks

variable {tasks tasksLate : List Lambda}
  {iterated iteratedLate : List (String × Compound)}
  {picks picksLate : List (String × Term)} {bindings bindingsLate : Bindings}
  {combination late : Combination}

/-- As many of the same tasks, and of alike values under the same names. -/
theorem count_foreshadows (lambdas : List.Forall₂ (Lambda.Alike pairs) tasks tasksLate)
    (values : OrderedMap.Matches (List.Forall₂ (Term.Alike waits pairs)) iterated iteratedLate)
    (apply : Apply) (correlated : Bool) :
    count apply correlated tasksLate iteratedLate = count apply correlated tasks iterated := by
  have sameLengths : iteratedLate.map (fun entry => (entry.1, entry.2.length)) =
      iterated.map fun entry => (entry.1, entry.2.length) := by
    induction values with
    | nil => rfl
    | cons here _ ih => simp only [List.map_cons, ih, here.length_eq]
  have factors : iteratedLate.map (fun entry => entry.2.length) =
      iterated.map fun entry => entry.2.length := by
    have lengths := congrArg (List.map Prod.snd) sameLengths
    rwa [List.map_map, List.map_map] at lengths
  simp only [count, lengths, choiceCount, sameLengths, factors, lambdas.length_eq]

theorem pickInStep_foreshadows
    (values : OrderedMap.Matches (List.Forall₂ (Term.Alike waits pairs)) iterated iteratedLate)
    (index : Nat) :
    OrderedMap.Matches (Term.Alike waits pairs) (pickInStep index iterated)
      (pickInStep index iteratedLate) := by
  induction values with
  | nil => exact .nil
  | @cons param value late _ _ here _ ih =>
      have picked := forall₂_getElem? here index
      simp only [pickInStep, List.filterMap_cons] at ih ⊢
      generalize value[index]? = early, late[index]? = found at picked
      cases picked with
      | none => exact ih
      | some alike => exact .cons alike ih

theorem pickChoice_foreshadows
    (values : OrderedMap.Matches (List.Forall₂ (Term.Alike waits pairs)) iterated iteratedLate)
    (index : Nat) : (pickChoice index iteratedLate).2 = (pickChoice index iterated).2 ∧
      OrderedMap.Matches (Term.Alike waits pairs) (pickChoice index iterated).1
        (pickChoice index iteratedLate).1 := by
  induction values generalizing index with
  | nil => exact ⟨rfl, .nil⟩
  | @cons param value late _ _ here _ ih =>
      have picked := forall₂_getElem? here (index % value.length)
      obtain ⟨left, others⟩ := ih (index / value.length)
      simp only [pickChoice, ← here.length_eq]
      generalize value[index % value.length]? = early,
        late[index % value.length]? = found at picked
      cases picked with
      | none => exact ⟨left, others⟩
      | some alike => exact ⟨left, .cons alike others⟩

theorem select_foreshadows
    (picked : OrderedMap.Matches (Term.Alike waits pairs) picks picksLate)
    (arguments : Bindings.Foreshadows waits pairs bindings bindingsLate) :
    Bindings.Foreshadows waits pairs (select picks bindings)
      (select picksLate bindingsLate) := by
  induction arguments with
  | nil => exact .nil
  | @cons name value late _ _ here _ ih =>
      have chosen := picked.get? name
      simp only [select, List.map_cons] at ih ⊢
      generalize OrderedMap.get? picks name = early,
        OrderedMap.get? picksLate name = found at chosen
      cases chosen with
      | none => exact .cons here ih
      | some alike => exact .cons alike.single ih

theorem keys_select :
    OrderedMap.keys (select picks bindings) = OrderedMap.keys bindings := by
  simp only [OrderedMap.keys, select, List.map_map]
  refine List.map_congr_left fun entry _ => ?_
  simp only [Function.comp_apply]
  split <;> rfl

/-- The same number of invocations, of the same tasks with alike values. -/
structure Alike (waits : Placeholder → Prop) (pairs : BlockId → BlockId → Prop)
    (combination late : Combination) : Prop where
  apply : combination.apply.Alike waits pairs late.apply
  tasks : List.Forall₂ (Lambda.Alike pairs) combination.tasks late.tasks
  iterated :
    OrderedMap.Matches (List.Forall₂ (Term.Alike waits pairs))
      combination.iterated late.iterated
  correlated : late.correlated = combination.correlated
  cardinality : late.cardinality = combination.cardinality

theorem Alike.pick (alike : combination.Alike waits pairs late) (index : Nat) :
    Option.Rel (Lambda.Alike pairs) (combination.pick index).1 (late.pick index).1 ∧
      OrderedMap.Matches (Term.Alike waits pairs) (combination.pick index).2
        (late.pick index).2 := by
  unfold Combination.pick
  rw [alike.correlated]
  split
  · refine ⟨?_, pickInStep_foreshadows alike.iterated index⟩
    have tasks := alike.tasks
    generalize combination.tasks = lambdas, late.tasks = lambdasLate at tasks
    match tasks with
    | .nil => exact forall₂_getElem? .nil index
    | .cons here .nil => exact .some here
    | .cons here (.cons next rest) =>
        exact forall₂_getElem? (.cons here (.cons next rest)) index
  · obtain ⟨left, picked⟩ :=
      pickChoice_foreshadows (OrderedMap.matches_reverse alike.iterated) index
    simp only [left]
    exact ⟨forall₂_getElem? alike.tasks _, picked⟩

theorem Alike.invocation? (alike : combination.Alike waits pairs late) (index : Nat) :
    Option.Rel (Invocation.Alike waits pairs) (combination.invocation? index)
      (late.invocation? index) := by
  obtain ⟨task, picked⟩ := alike.pick index
  have arguments := select_foreshadows picked alike.apply.bindings
  have distinct : OrderedMap.Distinct
      (select (combination.pick index).2 combination.apply.bindings) := by
    rw [OrderedMap.Distinct, keys_select]
    exact alike.apply.distinct
  have made (combination : Combination) :
      combination.invocation? index = (combination.pick index).1.map fun lambda =>
        ⟨lambda, select (combination.pick index).2 combination.apply.bindings,
          combination.apply.channel⟩ := rfl
  rw [made, made]
  generalize (combination.pick index).1 = early, (late.pick index).1 = found at task
  cases task with
  | none => exact .none
  | some lambdas => exact .some ⟨lambdas, arguments, distinct, alike.apply.channel⟩

/-- A combination is made, rejected, or has to wait on both sides, unless
something waits early. -/
theorem ofApply_foreshadows (alike : apply.Alike waits pairs other)
    (sole : ∃ first others, apply.task = .lambda first :: others ∧
      (others = [] ∨ first.prototype.correlated = true)) :
    (∃ combination late, ofApply apply = .ok combination ∧ ofApply other = .ok late ∧
      combination.Alike waits pairs late) ∨
      (∃ error errorLate, ofApply apply = .error (.rejected error) ∧
        ofApply other = .error (.rejected errorLate)) ∨
      ∃ term, ofApply apply = .error (.notDerivable term) ∧
      (apply.toTerm.Awaits waits ∨
        ∃ termLate, ofApply other = .error (.notDerivable termLate)) := by
  rcases tasksOf_foreshadows apply other alike.task with
    ⟨tasks, tasksLate, known, knownLate, lambdas⟩ | ⟨error, errorLate, known, knownLate⟩ |
      ⟨term, known, left⟩
  · cases lambdas with
    | nil =>
        refine .inl ⟨_, _, by rw [ofApply, known], by rw [ofApply, knownLate], ?_⟩
        exact ⟨alike, .nil, .nil, rfl, rfl⟩
    | @cons first firstLate others othersLate here rest =>
        rcases checkBound_foreshadows alike.bindings first.prototype.aggregates with
          ⟨bound, boundLate⟩ | ⟨error, errorLate, bound, boundLate⟩
        · rcases valuesOf_foreshadows alike.bindings first.prototype.iterated with
            ⟨iterated, iteratedLate, values, valuesLate, same⟩ |
              ⟨error, errorLate, values, valuesLate⟩ | ⟨term, values, left⟩
          · have counts :=
              count_foreshadows (.cons here rest) same other first.prototype.correlated
            cases counted : count apply first.prototype.correlated
              (first :: others) iterated with
            | ok cardinality =>
                refine .inl ⟨
                  ⟨apply, first :: others, iterated, first.prototype.correlated, cardinality⟩,
                  ⟨other, firstLate :: othersLate, iteratedLate, first.prototype.correlated,
                    cardinality⟩,
                  by simp only [ofApply, known, bound, values, counted, Except.map],
                  by simp only [ofApply, knownLate, here.prototype, boundLate, valuesLate,
                    counts, count_congr counted, Except.map], ?_⟩
                exact ⟨alike, .cons here rest, same, rfl, rfl⟩
            | error obstacle =>
                obtain ⟨⟨error, rfl⟩, errorLate, countedLate⟩ := count_error counted other
                exact .inr (.inl ⟨error, errorLate,
                  by simp only [ofApply, known, bound, values, counted, Except.map],
                  by simp only [ofApply, knownLate, here.prototype, boundLate, valuesLate,
                    counts, countedLate, Except.map]⟩)
          · exact .inr (.inl ⟨error, errorLate, by simp only [ofApply, known, bound, values],
              by simp only [ofApply, knownLate, here.prototype, boundLate, valuesLate]⟩)
          · refine .inr (.inr ⟨term, by simp only [ofApply, known, bound, values], ?_⟩)
            rcases left with
                ⟨param, iterates, value, boundTo, awaits⟩ | ⟨termLate, valuesLate⟩
            · have whole := tasksOf_eq_ok_iff.mp known
              obtain ⟨head, tail, task, single⟩ := sole
              obtain ⟨same, rfl⟩ := List.cons.inj (task.symm.trans whole)
              obtain rfl := Term.lambda.inj same
              exact .inl
                (Apply.awaits_iterated whole (by simpa using single) iterates boundTo awaits)
            · exact .inr ⟨termLate,
                by simp only [ofApply, knownLate, here.prototype, boundLate, valuesLate]⟩
        · exact .inr (.inl ⟨error, errorLate, by simp only [ofApply, known, bound],
            by simp only [ofApply, knownLate, here.prototype, boundLate]⟩)
  · exact .inr (.inl ⟨error, errorLate, by rw [ofApply, known], by rw [ofApply, knownLate]⟩)
  · refine .inr (.inr ⟨term, by rw [ofApply, known], ?_⟩)
    rcases left with ⟨inner, inside, awaits⟩ | ⟨termLate, knownLate⟩
    · exact .inl (.task inside awaits)
    · exact .inr ⟨termLate, by rw [ofApply, knownLate]⟩

end Picks

end Combination

end TicketFlow
