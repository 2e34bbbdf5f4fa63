import TicketFlow.Proofs.Data.OrderedMap
import TicketFlow.Reduction.Combination

namespace TicketFlow

/-! What an application is like that fulfils the contract of a backend.

Its task is one foreign lambda, one value is bound to every parameter that this
iterates over, and everything that is bound is a string.
-/

namespace Apply

variable {apply : Apply} {lambda : ForeignLambda} {params : List String}
  {bindings : Bindings}

theorem foreignTask_ok (found : apply.foreignTask = .ok lambda) :
    apply.singleForeign = .ok lambda ∧
      apply.checkAllIterated lambda.prototype.iterated = .ok () ∧
      apply.checkLiterals apply.bindings = .ok () := by
  unfold foreignTask at found
  split at found
  · simp at found
  next other single =>
    cases iterated : apply.checkAllIterated other.prototype.iterated with
    | error fault => simp [iterated] at found
    | ok _ =>
        cases literals : apply.checkLiterals apply.bindings with
        | error fault => simp [iterated, literals] at found
        | ok _ =>
            obtain rfl : other = lambda := by simpa [iterated, literals] using found
            exact ⟨single, iterated, rfl⟩

theorem checkAllIterated_ok (checked : apply.checkAllIterated params = .ok ()) :
    ∀ param ∈ params, ∃ value, value.isNormal = true ∧
      apply.bindings.get? param = some [value] := by
  induction params with
  | nil => simp
  | cons param rest ih =>
      unfold checkAllIterated at checked
      split at checked
      next here =>
        refine List.forall_mem_cons.mpr ⟨?_, ih checked⟩
        unfold checkIterated at here
        cases bound : apply.bindings.get? param with
        | none => simp [bound] at here
        | some value =>
            cases atoms : Compound.numAtoms value with
            | error term => simp [bound, atoms] at here
            | ok count =>
                obtain ⟨normal, length⟩ := Compound.numAtoms_eq_ok_iff.mp atoms
                simp only [bound, atoms] at here
                split at here
                next one =>
                  obtain ⟨term, rfl⟩ := List.length_eq_one_iff.mp (length.trans one)
                  exact ⟨term, by simpa [Compound.isNormal] using normal, rfl⟩
                next => simp at here
      next => simp at checked

theorem checkLiterals_ok (checked : apply.checkLiterals bindings = .ok ()) :
    ∀ binding ∈ bindings, ∀ term ∈ binding.2, term.isStr = true := by
  induction bindings with
  | nil => simp
  | cons binding rest ih =>
      obtain ⟨param, value⟩ := binding
      unfold checkLiterals at checked
      split at checked
      · simp at checked
      next none_other =>
        refine List.forall_mem_cons.mpr ⟨fun term inside => ?_, ih checked⟩
        simpa using List.find?_eq_none.mp none_other term inside

theorem checkAllIterated_of_single
    (single : ∀ param ∈ params,
      ∃ value, value.isNormal = true ∧ apply.bindings.get? param = some [value]) :
    apply.checkAllIterated params = .ok () := by
  induction params with
  | nil => rfl
  | cons param rest ih =>
      rw [List.forall_mem_cons] at single
      obtain ⟨⟨value, normal, bound⟩, others⟩ := single
      have atoms : Compound.numAtoms [value] = .ok 1 :=
        Compound.numAtoms_eq_ok_iff.mpr ⟨by simpa [Compound.isNormal] using normal, rfl⟩
      have here : apply.checkIterated param = .ok () := by
        simp [checkIterated, bound, atoms]
      rw [checkAllIterated, here]
      exact ih others

/-- The values are all strings, or the first one that is not is what
the check complains of. -/
theorem checkLiterals_cases (apply : Apply) (bindings : Bindings) :
    (apply.checkLiterals bindings = .ok () ∧ ∀ binding ∈ bindings, ∀ term ∈ binding.2,
      term.isStr = true) ∨ ∃ binding ∈ bindings, ∃ term ∈ binding.2, term.isStr = false ∧
        apply.checkLiterals bindings = .error (.argumentNotLiteral apply binding.1 term) := by
  induction bindings with
  | nil => exact .inl ⟨rfl, by simp⟩
  | cons binding rest ih =>
      obtain ⟨param, value⟩ := binding
      unfold checkLiterals
      cases found : value.find? fun term => !term.isStr with
      | some other =>
          have foreign : other.isStr = false := by simpa using List.find?_some found
          exact .inr
            ⟨_, List.mem_cons_self, other, List.mem_of_find?_eq_some found, foreign, rfl⟩
      | none =>
          have strings : ∀ term ∈ value, term.isStr = true := by
            simpa using List.find?_eq_none.mp found
          rcases ih with ⟨checked, others⟩ | ⟨binding, among, term, inside, foreign, checked⟩
          · exact .inl ⟨checked, List.forall_mem_cons.mpr ⟨strings, others⟩⟩
          · exact .inr ⟨binding, List.mem_cons_of_mem _ among, term, inside, foreign, checked⟩

end Apply

theorem Invocation.lambda_of_foreignTask {invocation : Invocation}
    {lambda : ForeignLambda} (found : invocation.toApply.foreignTask = .ok lambda) :
    invocation.lambda = .foreign lambda := by
  have single := (Apply.foreignTask_ok found).1
  cases task : invocation.lambda with
  | native native =>
      simp [Apply.singleForeign, Invocation.toApply, Compound.numAtoms, Term.isNormal,
        Except.map, task] at single
  | foreign foreign =>
      simp only [Apply.singleForeign, Invocation.toApply, task] at single
      split at single
      · simp at single
      · split at single
        · rw [Except.ok.inj single]
        · simp at single

end TicketFlow
