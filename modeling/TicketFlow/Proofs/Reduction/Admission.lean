import TicketFlow.Proofs.Reduction.Choices
import TicketFlow.Proofs.Reduction.Contract
import TicketFlow.Proofs.Reduction.Expansion
import TicketFlow.Reduction.Reduce
import TicketFlow.Schedule.Scheduler

namespace TicketFlow

/-! What an expansion asks the backend for.

Combination picks one value for each parameter that the first task iterates over,
and the backend wants one value for each parameter that the invoked task iterates
over.  Tasks with one prototype iterate over the same parameters, so what they are
invoked with fulfils the contract of the backend, unless a value is a lambda.
-/

variable {apply : Apply} {first : Lambda} {others : List Lambda}
  {combination : Combination} {invocation : Invocation}
  {foreign : ForeignLambda} {index : Nat}

namespace Combination

theorem MadeOf.picked (made : MadeOf apply first others combination)
    (within : index < combination.cardinality) :
    Picked apply first.prototype.iterated (combination.pick index).2 := by
  have inRange := made.inRange within
  unfold InRange at inRange
  unfold pick
  split
  next correlated =>
    rw [if_pos correlated, made.iterated_eq] at inRange
    rw [made.iterated_eq]
    exact picked_pickInStep fun param among => inRange.1 _ (List.mem_map_of_mem among)
  next apart =>
    rw [if_neg apart, made.iterated_eq] at inRange
    rw [made.iterated_eq, ← List.map_reverse]
    have picked : Picked apply first.prototype.iterated.reverse
        (pickChoice index (first.prototype.iterated.reverse.map (runThrough apply))).1 :=
      picked_pickChoice fun param among =>
        inRange.1 _ (List.mem_map_of_mem (List.mem_reverse.mp among))
    exact picked.of_mem_iff fun param => List.mem_reverse.symm

/-- Every invocation has exactly one value under what the first task iterates over. -/
theorem MadeOf.single_values (made : MadeOf apply first others combination)
    (member : invocation ∈ combination.invocations) :
    ∀ param ∈ first.prototype.iterated, ∃ value, value.isNormal = true ∧
      invocation.bindings.get? param = some [value] := by
  intro param among
  obtain ⟨index, within, found⟩ := List.mem_filterMap.mp member
  rw [invocation?_eq, made.apply_eq] at found
  obtain ⟨lambda, _, rfl⟩ := Option.map_eq_some_iff.mp found
  obtain ⟨values, bound, normal⟩ := made.known param among
  obtain ⟨value, chosen, inside⟩ :=
    (made.picked (List.mem_range.mp within)).chosen param among
  simp only [runThrough, bound, Option.getD_some] at inside
  exact ⟨value, List.all_eq_true.mp normal value inside,
    by rw [get?_select, chosen, bound]; rfl⟩

end Combination

namespace Apply

theorem madeOf_of_mem_combine (member : .invoke invocation ∈ apply.combine) :
    ∃ first others combination, Combination.MadeOf apply first others combination ∧
      invocation ∈ combination.invocations := by
  unfold combine at member
  split at member
  · simp at member
  · split at member
    next combination combined =>
      have member : invocation ∈ combination.invocations := by simpa using member
      rcases Combination.ofApply_eq_ok_iff.mp combined with ⟨_, rfl⟩ | ⟨first, others, made⟩
      · simp [Combination.invocations] at member
      · exact ⟨first, others, combination, made, member⟩
    · simp at member
    · simp at member

/-- Every invocation comes from a combination of some of the tasks. -/
theorem exists_combine_of_mem_expand (member : .invoke invocation ∈ apply.expand) :
    ∃ other : Apply, (∀ term ∈ other.task, term ∈ apply.task) ∧
      .invoke invocation ∈ other.combine := by
  have single {task : Term} (among : task ∈ apply.task)
      (member : .invoke invocation ∈ apply.expandTask task) : ∃ other : Apply,
      (∀ term ∈ other.task, term ∈ apply.task) ∧ .invoke invocation ∈ other.combine := by
    unfold expandTask at member
    split at member
    next lambda =>
      refine ⟨(apply.only (.lambda lambda)).captureRest, fun term inside => ?_, member⟩
      rw [task_captureRest, task_only, List.mem_singleton] at inside
      exact inside ▸ among
    · simp at member
  unfold expand at member
  split at member
  · simp at member
  next task sole => exact single (by simp [sole]) member
  · split at member
    · exact ⟨apply, fun _ => id, member⟩
    · split at member
      · obtain ⟨task, among, inside⟩ := List.mem_flatMap.mp member
        exact single among inside
      · simp at member
  · simp at member

/-- Tasks with one prototype are invoked with one value for each parameter
that they iterate over. -/
theorem single_values_of_mem_expand
    (alike : ∀ one other, .lambda one ∈ apply.task → .lambda other ∈ apply.task →
      one.prototype = other.prototype) (member : .invoke invocation ∈ apply.expand) :
    ∀ param ∈ invocation.lambda.prototype.iterated, ∃ value, value.isNormal = true ∧
      invocation.bindings.get? param = some [value] := by
  obtain ⟨combined, tasks, member⟩ := exists_combine_of_mem_expand member
  obtain ⟨first, others, combination, made, inside⟩ := madeOf_of_mem_combine member
  have stems : .lambda invocation.lambda ∈ combined.task :=
    (stems_of_mem_combine member).1
  have head : .lambda first ∈ combined.task := by rw [made.task]; exact List.mem_cons_self
  rw [alike _ _ (tasks _ stems) (tasks _ head)]
  exact made.single_values inside

end Apply

namespace Invocation

/-- The invocation is one that a ticket is requested for. -/
structure Requested (invocation : Invocation) (foreign : ForeignLambda) : Prop where
  external : invocation.lambda = .foreign foreign
  output : ∃ output, invocation.lambda.prototype.output? invocation.channel = some output
  normal : invocation.toApply.areArgumentsNormal = true

theorem singleForeign_toApply (external : invocation.lambda = .foreign foreign) :
    invocation.toApply.singleForeign = .ok foreign := by
  rw [Apply.singleForeign, toApply, external]
  rfl

/-- With one value under each parameter that is iterated over, only a lambda can be in
the way of a request. -/
theorem Requested.foreignTask_of_single (requested : invocation.Requested foreign)
    (single : ∀ param ∈ invocation.lambda.prototype.iterated, ∃ value, value.isNormal = true ∧
      invocation.bindings.get? param = some [value]) :
    (invocation.toApply.foreignTask = .ok foreign ∧
      ∀ binding ∈ invocation.bindings, ∀ term ∈ binding.2, term.isStr = true) ∨
      ∃ binding ∈ invocation.bindings, ∃ lambda, .lambda lambda ∈ binding.2 ∧
        invocation.toApply.foreignTask =
          .error (.argumentNotLiteral invocation.toApply binding.1 (.lambda lambda)) := by
  have iterated :
      invocation.toApply.checkAllIterated foreign.prototype.iterated = .ok () := by
    refine Apply.checkAllIterated_of_single ?_
    rw [requested.external] at single
    exact single
  unfold Apply.foreignTask
  rw [singleForeign_toApply requested.external]
  simp only [iterated]
  rcases invocation.toApply.checkLiterals_cases invocation.toApply.bindings with
    ⟨checked, strings⟩ | ⟨binding, among, term, inside, other, checked⟩
  · exact .inl ⟨by rw [checked], strings⟩
  · have normal : term.isNormal = true :=
      List.all_eq_true.mp (List.all_eq_true.mp requested.normal binding among) term inside
    cases term with
    | lambda lambda => exact .inr ⟨binding, among, lambda, inside, by rw [checked]⟩
    | str value => simp [Term.isStr] at other
    | _ => simp [Term.isNormal] at normal

end Invocation

namespace Reduction

variable {σ : Type} [TicketSource σ] {recurse : Compound → PassM σ Compound}

theorem reduceInvocation_of_requested (requested : invocation.Requested foreign) :
    reduceInvocation recurse invocation = requestTicket invocation.toApply >>= resolve := by
  obtain ⟨output, found⟩ := requested.output
  unfold reduceInvocation
  rw [found, requested.external]
  simp only [requested.normal, if_true]
  rfl

/-- A foreign task that no ticket is requested for leaves the pass as it was. -/
theorem reduceInvocation_of_not_requested
    (external : invocation.lambda = .foreign foreign)
    (other : ¬invocation.Requested foreign) (pass : Pass σ) :
    (reduceInvocation recurse invocation pass).2 = pass := by
  unfold reduceInvocation
  cases found : invocation.lambda.prototype.output? invocation.channel with
  | none => rfl
  | some output =>
      have open_ : ¬invocation.toApply.areArgumentsNormal = true :=
        fun normal => other ⟨external, ⟨output, found⟩, normal⟩
      rw [external]
      simp only [open_]
      rfl

end Reduction

section Contract

variable {σ : Type} [TicketSource σ]

/-- Where all tasks have one prototype, an invocation of a foreign task leaves the pass as
it was, or it is a request that fulfils the contract of the backend, or one of whose
arguments is a lambda. -/
theorem Apply.requests_fulfil_contract
    (alike : ∀ one other, .lambda one ∈ apply.task → .lambda other ∈ apply.task →
      one.prototype = other.prototype) (member : .invoke invocation ∈ apply.expand)
    (external : invocation.lambda = .foreign foreign)
    (recurse : Compound → PassM σ Compound) :
    (¬invocation.Requested foreign ∧
      ∀ pass, (Reduction.reduceInvocation recurse invocation pass).2 = pass) ∨
      (Reduction.reduceInvocation recurse invocation =
          Reduction.requestTicket invocation.toApply >>= Reduction.resolve ∧
        ((invocation.toApply.foreignTask = .ok foreign ∧
            ∀ binding ∈ invocation.bindings, ∀ term ∈ binding.2, term.isStr = true) ∨
          ∃ binding ∈ invocation.bindings, ∃ lambda, .lambda lambda ∈ binding.2 ∧
            invocation.toApply.foreignTask =
              .error (.argumentNotLiteral invocation.toApply binding.1 (.lambda lambda)))) := by
  by_cases requested : invocation.Requested foreign
  · exact .inr ⟨Reduction.reduceInvocation_of_requested requested,
      requested.foreignTask_of_single (single_values_of_mem_expand alike member)⟩
  · exact .inl ⟨requested, Reduction.reduceInvocation_of_not_requested external requested⟩

end Contract

/-- Packs one page at a time, together with everything else it is given. -/
def packTask (name : String) : ForeignLambda where
  name
  prototype :=
    { params := [.plain "task", .plain "page", .aggregate "cover"]
      outputs := ["parcel"]
      rest := some "more" }
  lang := "bash"
  script := "pack $page $cover $more"

def packing : Apply where
  task := [.lambda (.foreign (packTask "letter")), .lambda (.foreign (packTask "box"))]
  bindings := [("page", Compound.strs ["1", "2"]), ("stamp", Compound.strs ["red"]),
    ("cover", Compound.strs ["a", "b"])]
  channel := 1
  rest := true

def boxedPage : Invocation where
  lambda := .foreign (packTask "box")
  bindings := [("page", Compound.strs ["2"]), ("cover", Compound.strs ["a", "b"]),
    ("more", Compound.strs ["red"])]
  channel := 1

theorem Apply.requests_fulfil_contract_packing :
    (∀ one other, .lambda one ∈ packing.task → .lambda other ∈ packing.task →
      one.prototype = other.prototype) ∧ .invoke boxedPage ∈ packing.expand ∧
      boxedPage.lambda = .foreign (packTask "box") ∧
      boxedPage.toApply.foreignTask = .ok (packTask "box") := by
  have alike : ∀ one other, .lambda one ∈ packing.task → .lambda other ∈ packing.task →
      one.prototype = other.prototype := by
    intro one other
    simp only [packing, List.mem_cons, List.not_mem_nil, or_false, Term.lambda.injEq]
    rintro (rfl | rfl) (rfl | rfl) <;> rfl
  have member : .invoke boxedPage ∈ packing.expand :=
    List.mem_of_getElem? (rfl : packing.expand[3]? = some (.invoke boxedPage))
  have requested : boxedPage.Requested (packTask "box") := ⟨rfl, ⟨_, rfl⟩, by decide⟩
  refine ⟨alike, member, rfl, ?_⟩
  rcases requests_fulfil_contract alike member rfl (@Reduction.reduce Scheduler _ 1) with
    ⟨other, _⟩ | ⟨_, ⟨accepted, _⟩ | ⟨binding, among, lambda, inside, _⟩⟩
  · exact absurd requested other
  · exact accepted
  · have strings : ∀ binding ∈ boxedPage.bindings, ∀ term ∈ binding.2,
        term.isStr = true := by decide
    exact absurd (strings binding among _ inside) (by simp [Term.isStr])

end TicketFlow
