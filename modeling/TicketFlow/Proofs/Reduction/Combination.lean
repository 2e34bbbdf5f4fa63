import Mathlib.Data.List.Basic
import TicketFlow.Proofs.Data.OrderedMap
import TicketFlow.Reduction.Combination

namespace TicketFlow

/-! The invocations of one task.

Every invocation has exactly one value under each iterated parameter, and the
combination of such an invocation is the invocation itself.  Evaluating what is
not reduced yet, before or after the arguments are combined, gives the same
invocations, because only values are ever picked.
-/

variable {further : Term → Compound}

/-- The term stands in one of the bindings. -/
def BoundIn (bindings : Bindings) (term : Term) : Prop :=
  ∃ binding ∈ bindings, term ∈ binding.2

theorem boundIn_nil {term : Term} : ¬BoundIn [] term := by
  simp [BoundIn]

theorem boundIn_cons {binding : String × Compound} {rest : Bindings} {term : Term} :
    BoundIn (binding :: rest) term ↔ term ∈ binding.2 ∨ BoundIn rest term := by
  simp [BoundIn]

/-- Every term is replaced by what it comes to. -/
def Apply.advance (further : Term → Compound) (apply : Apply) : Apply :=
  { apply with
    task := apply.task.flatMap further
    bindings := OrderedMap.mapValues (List.flatMap further) apply.bindings }

def Invocation.advance (further : Term → Compound)
    (invocation : Invocation) : Invocation :=
  { invocation with
    bindings := OrderedMap.mapValues (List.flatMap further) invocation.bindings }

theorem Apply.get?_advance {apply : Apply} {param : String} :
    (apply.advance further).bindings.get? param =
      (apply.bindings.get? param).map (List.flatMap further) :=
  OrderedMap.get?_mapValues

/-- Evaluation leaves values alone. -/
def KeepsValues (further : Term → Compound) : Prop :=
  ∀ {term : Term}, term.isNormal = true → further term = [term]

theorem KeepsValues.flatMap {compound : Compound} (keeps : KeepsValues further)
    (normal : Compound.isNormal compound = true) :
    compound.flatMap further = compound := by
  induction compound with
  | nil => rfl
  | cons term rest ih =>
      simp only [Compound.isNormal, List.all_cons, Bool.and_eq_true] at normal ih
      rw [List.flatMap_cons, keeps normal.1, ih normal.2]
      rfl

theorem KeepsValues.advance_invocation
    {invocation : Invocation} (keeps : KeepsValues further) :
    invocation.toApply.advance further = (invocation.advance further).toApply := by
  have value : further (.lambda invocation.lambda) = [.lambda invocation.lambda] :=
    keeps rfl
  simp [Apply.advance, Invocation.advance, Invocation.toApply, value]

theorem Compound.isNormal_of_numAtoms {compound : Compound} {count : Nat}
    (known : Compound.numAtoms compound = .ok count) :
    Compound.isNormal compound = true :=
  (Compound.numAtoms_eq_ok_iff.mp known).1

theorem Compound.numAtoms_of_isNormal {compound : Compound}
    (normal : Compound.isNormal compound = true) :
    Compound.numAtoms compound = .ok compound.length :=
  Compound.numAtoms_eq_ok_iff.mpr ⟨normal, rfl⟩

namespace Combination

variable {apply : Apply} {params : List String} {iterated : List (String × Compound)}
  {picks : List (String × Term)} {param : String} {index : Nat} {bindings : Bindings}

section Values

/-- The values that a parameter runs through. -/
def runThrough (apply : Apply) (param : String) : String × Compound :=
  (param, (apply.bindings.get? param).getD [])

theorem valuesOf_eq_ok_iff :
    valuesOf apply params = .ok iterated ↔
      (∀ param ∈ params, ∃ value, apply.bindings.get? param = some value ∧
        Compound.isNormal value = true) ∧ iterated = params.map (runThrough apply) := by
  induction params generalizing iterated with
  | nil =>
      simp only [valuesOf, Except.ok.injEq, List.not_mem_nil, false_implies, implies_true,
        List.map_nil, true_and]
      exact eq_comm
  | cons param rest ih =>
      cases bound : apply.bindings.get? param with
      | none => simp [valuesOf, bound]
      | some value =>
          cases known : Compound.numAtoms value with
          | error term =>
              have unknown : ¬Compound.isNormal value = true := by
                intro normal
                simp [Compound.numAtoms_of_isNormal normal] at known
              simp [valuesOf, bound, known, unknown]
          | ok count =>
              have normal := Compound.isNormal_of_numAtoms known
              cases remaining : valuesOf apply rest with
              | error obstacle =>
                  have never : ¬∀ param ∈ rest, ∃ value, apply.bindings.get? param =
                      some value ∧ Compound.isNormal value = true := by
                    intro all
                    simp [ih.mpr ⟨all, rfl⟩] at remaining
                  simp [valuesOf, bound, known, remaining, Except.map, never]
              | ok values =>
                  obtain ⟨all, rfl⟩ := ih.mp remaining
                  have here : runThrough apply param = (param, value) := by
                    simp [runThrough, bound]
                  simp only [valuesOf, bound, known, remaining, Except.map,
                    Except.ok.injEq, List.forall_mem_cons, Option.some.injEq,
                    exists_eq_left', normal, true_and, List.map_cons, here]
                  exact ⟨fun same => ⟨all, same.symm⟩, fun both => both.2.symm⟩

/-- A missing parameter is still missing when the others are evaluated further. -/
theorem valuesOf_advance_rejected {error : ReduceError} (keeps : KeepsValues further)
    (rejected : valuesOf apply params = .error (.rejected error)) :
    ∃ later, valuesOf (apply.advance further) params = .error (.rejected later) := by
  induction params with
  | nil => simp [valuesOf] at rejected
  | cons param rest ih =>
      unfold valuesOf at rejected ⊢
      rw [Apply.get?_advance]
      cases bound : apply.bindings.get? param with
      | none => exact ⟨_, rfl⟩
      | some value =>
          cases known : Compound.numAtoms value with
          | error term => simp [bound, known] at rejected
          | ok count =>
              have same : value.flatMap further = value :=
                keeps.flatMap (Compound.isNormal_of_numAtoms known)
              cases remaining : valuesOf apply rest with
              | ok values => simp [bound, known, remaining, Except.map] at rejected
              | error obstacle =>
                  simp only [bound, known, remaining, Except.map,
                    Except.error.injEq] at rejected
                  subst rejected
                  obtain ⟨later, found⟩ := ih remaining
                  exact ⟨later, by simp [same, known, found, Except.map]⟩

theorem runThrough_advance {value : Compound} (keeps : KeepsValues further)
    (bound : apply.bindings.get? param = some value)
    (normal : Compound.isNormal value = true) :
    (apply.advance further).bindings.get? param = some value ∧
      runThrough (apply.advance further) param = runThrough apply param := by
  have same : (apply.advance further).bindings.get? param = some value := by
    rw [Apply.get?_advance, bound, Option.map_some, keeps.flatMap normal]
  exact ⟨same, by rw [runThrough, same, runThrough, bound]⟩

/-- Values are run through alike when the other arguments are evaluated further. -/
theorem valuesOf_advance (keeps : KeepsValues further)
    (known : valuesOf apply params = .ok iterated) :
    valuesOf (apply.advance further) params = .ok iterated := by
  obtain ⟨all, rfl⟩ := valuesOf_eq_ok_iff.mp known
  refine valuesOf_eq_ok_iff.mpr
    ⟨fun param member => ?_, List.map_congr_left fun param member => ?_⟩
  · obtain ⟨value, bound, normal⟩ := all param member
    exact ⟨value, (runThrough_advance keeps bound normal).1, normal⟩
  · obtain ⟨value, bound, normal⟩ := all param member
    exact (runThrough_advance keeps bound normal).2.symm

theorem checkBound_eq_ok_iff :
    checkBound apply params = .ok () ↔
      ∀ param ∈ params, apply.bindings.contains param = true := by
  induction params with
  | nil => simp [checkBound]
  | cons param rest ih =>
      rw [checkBound, List.forall_mem_cons, ← ih]
      split
      next bound => simp only [bound, true_and]
      next unbound => simp only [unbound, false_and, reduceCtorEq]

theorem checkBound_error {obstacle : Obstacle}
    (failed : checkBound apply params = .error obstacle) :
    ∃ error, obstacle = .rejected error := by
  induction params with
  | nil => simp [checkBound] at failed
  | cons param rest ih =>
      by_cases bound : apply.bindings.contains param = true
      · simp only [checkBound, bound, if_true] at failed
        exact ih failed
      · simp only [checkBound, bound, Bool.false_eq_true, if_false,
          Except.error.injEq] at failed
        exact ⟨_, failed.symm⟩

theorem checkBound_advance :
    checkBound (apply.advance further) params = .ok () ↔
      checkBound apply params = .ok () := by
  rw [checkBound_eq_ok_iff, checkBound_eq_ok_iff]
  simp [Apply.advance]

end Values

section Picks

/-- Of the values of each parameter one is picked, and nothing else is. -/
structure Picked (apply : Apply) (params : List String)
    (picks : List (String × Term)) : Prop where
  chosen :
    ∀ param ∈ params, ∃ value, OrderedMap.get? picks param = some value ∧
    value ∈ (runThrough apply param).2
  nothingElse : ∀ param, param ∉ params → OrderedMap.get? picks param = none

theorem Picked.nil : Picked apply [] [] where
  chosen := by simp
  nothingElse _ _ := rfl

theorem Picked.cons {value : Term} (picked : Picked apply params picks)
    (member : value ∈ (runThrough apply param).2) :
    Picked apply (param :: params) ((param, value) :: picks) where
  chosen other present := by
    by_cases same : param = other
    · exact ⟨value, by simp [OrderedMap.get?, same], same ▸ member⟩
    · simp only [OrderedMap.get?, same, if_false]
      exact picked.chosen other ((List.mem_cons.mp present).resolve_left (Ne.symm same))
  nothingElse other absent := by
    rw [List.mem_cons, not_or] at absent
    simp only [OrderedMap.get?, Ne.symm absent.1, if_false]
    exact picked.nothingElse other absent.2

theorem Picked.of_mem_iff {others : List String} (picked : Picked apply params picks)
    (same : ∀ param, param ∈ others ↔ param ∈ params) : Picked apply others picks where
  chosen param member := picked.chosen param ((same param).mp member)
  nothingElse param
    absent := picked.nothingElse param fun member => absent ((same param).mpr member)

theorem picked_pickInStep
    (within : ∀ param ∈ params, index < (runThrough apply param).2.length) :
    Picked apply params (pickInStep index (params.map (runThrough apply))) := by
  induction params with
  | nil => exact .nil
  | cons param rest ih =>
      rw [List.forall_mem_cons] at within
      have found :
          (runThrough apply param).2[index]? = some (runThrough apply param).2[index] :=
        List.getElem?_eq_getElem within.1
      rw [pickInStep, List.map_cons, List.filterMap_cons, found, Option.map_some]
      exact (ih within.2).cons (List.getElem_mem within.1)

theorem picked_pickChoice
    (nonempty : ∀ param ∈ params, 0 < (runThrough apply param).2.length) :
    Picked apply params (pickChoice index (params.map (runThrough apply))).1 := by
  induction params generalizing index with
  | nil => exact .nil
  | cons param rest ih =>
      rw [List.forall_mem_cons] at nonempty
      have within : index % (runThrough apply param).2.length <
          (runThrough apply param).2.length :=
        Nat.mod_lt _ nonempty.1
      have tail : Picked apply rest
          (pickChoice (index / (runThrough apply param).2.length)
            (rest.map (runThrough apply))).1 := ih nonempty.2
      rw [List.map_cons]
      unfold pickChoice
      simp only [List.getElem?_eq_getElem within]
      exact tail.cons (List.getElem_mem within)

theorem get?_select :
    OrderedMap.get? (select picks bindings) param =
      match OrderedMap.get? picks param with
      | some value => (OrderedMap.get? bindings param).map fun _ => [value]
      | none => OrderedMap.get? bindings param := by
  induction bindings with
  | nil => cases OrderedMap.get? picks param <;> rfl
  | cons entry rest ih =>
      obtain ⟨name, value⟩ := entry
      simp only [select, List.map_cons] at ih ⊢
      by_cases same : name = param
      · subst same
        cases OrderedMap.get? picks name <;> simp [OrderedMap.get?]
      · have other : ∀ bound, (match OrderedMap.get? picks name with
            | some found => (name, [found])
            | none => (name, bound)).1 = name := by
          intro bound
          cases OrderedMap.get? picks name <;> rfl
        cases found : OrderedMap.get? picks name <;> simp [OrderedMap.get?, same, ih]

theorem contains_select :
    OrderedMap.contains (select picks bindings) param =
      OrderedMap.contains bindings param := by
  rw [OrderedMap.contains, get?_select, OrderedMap.contains]
  cases OrderedMap.get? picks param <;> simp

theorem select_mapValues (keeps : KeepsValues further)
    (normal : ∀ param value, OrderedMap.get? picks param = some value →
      value.isNormal = true) :
    select picks (OrderedMap.mapValues (List.flatMap further) bindings) =
      OrderedMap.mapValues (List.flatMap further) (select picks bindings) := by
  simp only [select, OrderedMap.mapValues, List.map_map]
  refine List.map_congr_left fun entry _ => ?_
  simp only [Function.comp_apply]
  cases picked : OrderedMap.get? picks entry.1 with
  | none => rfl
  | some value => simp [keeps (normal _ _ picked)]

end Picks

section Stems

variable {invocation : Invocation} {combination : Combination} {tasks : List Lambda}

/-- The tasks are known exactly if all of them are lambdas. -/
theorem tasksOf_eq_ok_iff {task : Compound} :
    tasksOf apply task = .ok tasks ↔ task = tasks.map .lambda := by
  induction task generalizing tasks with
  | nil => cases tasks <;> simp [tasksOf]
  | cons term rest ih =>
      cases term with
      | lambda first =>
          cases others : tasksOf apply rest with
          | error obstacle =>
              have never (lambdas : List Lambda) : rest ≠ lambdas.map .lambda :=
                fun same => by simp [ih.mpr same] at others
              cases tasks with
              | nil => simp [tasksOf, others, Except.map]
              | cons task tasks =>
                  simpa [tasksOf, others, Except.map] using fun _ => never tasks
          | ok lambdas =>
              obtain rfl := ih.mp others
              cases tasks with
              | nil => simp [tasksOf, others, Except.map]
              | cons task tasks => simp [tasksOf, others, Except.map, List.map_inj_right]
      | _ =>
          refine ⟨fun known => ?_, fun same => by cases tasks <;> simp at same⟩
          unfold tasksOf at known
          split at known <;> simp at known

theorem mem_of_mem_tasksOf {lambda : Lambda} {task : Compound}
    (known : tasksOf apply task = .ok tasks) (member : lambda ∈ tasks) :
    .lambda lambda ∈ task := by
  rw [tasksOf_eq_ok_iff.mp known]
  exact List.mem_map_of_mem member

theorem mem_pickInStep {pick : String × Term}
    (member : pick ∈ pickInStep index iterated) :
    ∃ entry ∈ iterated, entry.1 = pick.1 ∧ pick.2 ∈ entry.2 := by
  obtain ⟨entry, among, chosen⟩ := List.mem_filterMap.mp member
  obtain ⟨value, found, rfl⟩ := Option.map_eq_some_iff.mp chosen
  exact ⟨entry, among, rfl, List.mem_of_getElem? found⟩

theorem mem_pickChoice {pick : String × Term}
    (member : pick ∈ (pickChoice index iterated).1) :
    ∃ entry ∈ iterated, entry.1 = pick.1 ∧ pick.2 ∈ entry.2 := by
  induction iterated generalizing index with
  | nil => simp [pickChoice] at member
  | cons entry rest ih =>
      obtain ⟨param, values⟩ := entry
      have later : pick ∈ (pickChoice (index / values.length) rest).1 →
          ∃ entry ∈ (param, values) :: rest, entry.1 = pick.1 ∧ pick.2 ∈ entry.2 := by
        intro inside
        obtain ⟨entry, among, here⟩ := ih inside
        exact ⟨entry, List.mem_cons_of_mem _ among, here⟩
      unfold pickChoice at member
      cases found : values[index % values.length]? with
      | none =>
          simp only [found] at member
          exact later member
      | some value =>
          simp only [found] at member
          rcases List.mem_cons.mp member with rfl | inside
          · exact ⟨(param, values), List.mem_cons_self, rfl, List.mem_of_getElem? found⟩
          · exact later inside

theorem boundIn_of_select {term : Term}
    (stems : ∀ pick ∈ picks, BoundIn bindings pick.2)
    (bound : BoundIn (select picks bindings) term) : BoundIn bindings term := by
  obtain ⟨binding, member, inside⟩ := bound
  obtain ⟨before, among, rfl⟩ := List.mem_map.mp member
  cases taken : OrderedMap.get? picks before.1 with
  | none => exact ⟨before, among, by simpa [taken] using inside⟩
  | some value =>
      have same : term = value := by simpa [taken] using inside
      exact same ▸ stems _ (OrderedMap.mem_of_get? taken)

/-- What a combination is made of is what stands in the application. -/
theorem stems_of_ofApply (combined : ofApply apply = .ok combination) :
    combination.apply = apply ∧ tasksOf apply apply.task = .ok combination.tasks ∧
      ∀ entry ∈ combination.iterated, ∀ term ∈ entry.2, BoundIn apply.bindings term := by
  unfold ofApply at combined
  cases tasks : tasksOf apply apply.task with
  | error obstacle => simp [tasks] at combined
  | ok lambdas =>
      cases lambdas with
      | nil =>
          simp only [tasks, Except.ok.injEq] at combined
          subst combined
          exact ⟨rfl, rfl, by simp⟩
      | cons first others =>
          cases bound : checkBound apply first.prototype.aggregates with
          | error obstacle => simp [tasks, bound] at combined
          | ok _ =>
              cases values : valuesOf apply first.prototype.iterated with
              | error obstacle => simp [tasks, bound, values] at combined
              | ok iterated =>
                  cases counted : count apply first.prototype.correlated
                    (first :: others) iterated with
                  | error obstacle =>
                      simp [tasks, bound, values, counted, Except.map] at combined
                  | ok cardinality =>
                      simp only [tasks, bound, values, counted, Except.map,
                        Except.ok.injEq] at combined
                      subst combined
                      refine ⟨rfl, rfl, fun entry among term inside => ?_⟩
                      obtain ⟨known, rfl⟩ := valuesOf_eq_ok_iff.mp values
                      obtain ⟨param, iterates, rfl⟩ := List.mem_map.mp among
                      obtain ⟨value, boundTo, _⟩ := known param iterates
                      simp only [runThrough, boundTo, Option.getD_some] at inside
                      exact ⟨_, OrderedMap.mem_of_get? boundTo, inside⟩

theorem mem_tasks_of_pick {task : Lambda} {index : Nat}
    (chosen : (combination.pick index).1 = some task) : task ∈ combination.tasks := by
  unfold pick at chosen
  split at chosen
  · simp only at chosen
    split at chosen
    next single sole => simp [sole, Option.some.inj chosen]
    next => exact List.mem_of_getElem? chosen
  · exact List.mem_of_getElem? chosen

theorem mem_iterated_of_pick {picked : String × Term}
    {index : Nat} (inside : picked ∈ (combination.pick index).2) :
    ∃ entry ∈ combination.iterated, entry.1 = picked.1 ∧ picked.2 ∈ entry.2 := by
  unfold pick at inside
  split at inside
  · exact mem_pickInStep inside
  · obtain ⟨entry, among, here⟩ := mem_pickChoice inside
    exact ⟨entry, List.mem_reverse.mp among, here⟩

/-- An invocation is made of what stands in the application. -/
theorem stems_of_mem_invocations (combined : ofApply apply = .ok combination)
    (member : invocation ∈ combination.invocations) :
    .lambda invocation.lambda ∈ apply.task ∧ invocation.channel = apply.channel ∧
      ∀ term, BoundIn invocation.bindings term → BoundIn apply.bindings term := by
  obtain ⟨index, _, found⟩ := List.mem_filterMap.mp member
  obtain ⟨rfl, tasks, iterated⟩ := stems_of_ofApply combined
  cases chosen : (combination.pick index).1 with
  | none => simp [invocation?, chosen] at found
  | some task =>
      simp only [invocation?, chosen, Option.map_some, Option.some.injEq] at found
      subst found
      refine ⟨mem_of_mem_tasksOf tasks (mem_tasks_of_pick chosen), rfl, fun term => ?_⟩
      refine boundIn_of_select fun picked inside => ?_
      obtain ⟨entry, among, _, value⟩ := mem_iterated_of_pick inside
      exact iterated entry among picked.2 value

end Stems

section Single

variable {lambda : Lambda} {combination : Combination} {cardinality : Nat}
  {correlated : Bool} {tasks : List Lambda}

theorem ofApply_single_ok (single : apply.task = [.lambda lambda])
    (combined : ofApply apply = .ok combination) :
    checkBound apply lambda.prototype.aggregates = .ok () ∧
      valuesOf apply lambda.prototype.iterated = .ok combination.iterated ∧
      count apply lambda.prototype.correlated [lambda] combination.iterated =
        .ok combination.cardinality ∧ combination.apply = apply ∧
      combination.tasks = [lambda] ∧
      combination.correlated = lambda.prototype.correlated := by
  simp only [ofApply, single, tasksOf, Except.map] at combined
  cases bound : checkBound apply lambda.prototype.aggregates with
  | error obstacle => simp [bound] at combined
  | ok _ =>
      cases values : valuesOf apply lambda.prototype.iterated with
      | error obstacle => simp [bound, values] at combined
      | ok iterated =>
          cases counted : count apply lambda.prototype.correlated [lambda] iterated with
          | error obstacle => simp [bound, values, counted] at combined
          | ok cardinality =>
              simp only [bound, values, counted, Except.ok.injEq] at combined
              subst combined
              exact ⟨rfl, rfl, counted, rfl, rfl, rfl⟩

theorem ofApply_single (single : apply.task = [.lambda lambda])
    (bound : checkBound apply lambda.prototype.aggregates = .ok ())
    (values : valuesOf apply lambda.prototype.iterated = .ok iterated)
    (counted : count apply lambda.prototype.correlated [lambda] iterated = .ok cardinality) :
    ofApply apply = .ok
      { apply, tasks := [lambda], iterated, cardinality,
        correlated := lambda.prototype.correlated } := by
  simp [ofApply, single, tasksOf, Except.map, bound, values, counted]

theorem length_pos_of_choiceCount_pos (counted : 0 < choiceCount tasks iterated) :
    ∀ entry ∈ iterated, 0 < entry.2.length := by
  have multiplied : choiceCount tasks iterated =
      (tasks.length * (iterated.map fun entry => entry.2.length).prod) % countLimit := rfl
  have positive : 0 < (iterated.map fun entry => entry.2.length).prod := by
    refine Nat.pos_of_ne_zero fun empty => ?_
    rw [multiplied, empty, Nat.mul_zero, Nat.zero_mod] at counted
    exact absurd counted (Nat.lt_irrefl 0)
  rw [List.prod_pos_iff_forall_pos_nat] at positive
  exact fun entry member => positive _ (List.mem_map.mpr ⟨entry, member, rfl⟩)

theorem choiceCount_eq_one (one : ∀ entry ∈ iterated, entry.2.length = 1) :
    choiceCount [lambda] iterated = 1 := by
  have product : (iterated.map fun entry => entry.2.length).foldr (· * ·) 1 = 1 := by
    induction iterated with
    | nil => rfl
    | cons entry rest ih =>
        rw [List.forall_mem_cons] at one
        rw [List.map_cons, List.foldr_cons, one.1, ih one.2]
  rw [choiceCount, product]
  rfl

/-- How many invocations there are does not depend on what is passed on whole. -/
theorem count_congr {other : Apply}
    (counted : count apply correlated tasks iterated = .ok cardinality) :
    count other correlated tasks iterated = .ok cardinality := by
  unfold count correlatedCount at counted ⊢
  split
  next taken =>
    rw [if_pos taken] at counted
    split at counted
    · exact counted
    · split at counted
      next first others matched same => rw [if_pos same]; exact counted
      · simp at counted
  next taken =>
    rw [if_neg taken] at counted
    exact counted

theorem count_error {obstacle : Obstacle}
    (failed : count apply correlated tasks iterated = .error obstacle) (other : Apply) :
    (∃ error, obstacle = .rejected error) ∧
      ∃ error, count other correlated tasks iterated = .error (.rejected error) := by
  unfold count correlatedCount at failed ⊢
  split
  next taken =>
    rw [if_pos taken] at failed
    split at failed
    · simp at failed
    · split at failed
      · simp at failed
      next first others matched apart =>
        simp only [Except.error.injEq] at failed
        exact ⟨⟨_, failed.symm⟩, _, by rw [if_neg apart]⟩
  next taken =>
    rw [if_neg taken] at failed
    simp at failed

/-- Whatever has an invocation has values to pick. -/
theorem length_of_lt_count
    (counted : count apply correlated [lambda] (params.map (runThrough apply)) =
      .ok cardinality) (within : index < cardinality) (member : param ∈ params) :
    (correlated = true → index < (runThrough apply param).2.length) ∧
      0 < (runThrough apply param).2.length := by
  unfold count at counted
  split at counted
  next taken =>
    have lengthsOf : lengths [lambda] (params.map (runThrough apply)) =
        params.map fun param => (param, (runThrough apply param).2.length) := by
      simp [lengths, runThrough, Function.comp_def]
    rw [lengthsOf] at counted
    unfold correlatedCount at counted
    split at counted
    next none_iterated => simp [List.map_eq_nil_iff.mp none_iterated] at member
    next first others matched =>
      split at counted
      next same =>
        rw [List.all_eq_true] at same
        have here := same _ (List.mem_map.mpr ⟨param, member, rfl⟩)
        simp only [beq_iff_eq] at here
        simp only [Except.ok.injEq] at counted
        have positive : index < (runThrough apply param).2.length := by omega
        exact ⟨fun _ => positive, by omega⟩
      · simp at counted
  next taken =>
    refine ⟨fun correlates => absurd correlates taken, ?_⟩
    have positive : 0 < choiceCount [lambda] (params.map (runThrough apply)) := by
      rw [Except.ok.inj counted]
      exact Nat.zero_lt_of_lt within
    exact length_pos_of_choiceCount_pos positive _ (List.mem_map.mpr ⟨param, member, rfl⟩)

/-- What an invocation of a combination of one task is made of. -/
theorem invocation?_single (single : apply.task = [.lambda lambda])
    (combined : ofApply apply = .ok combination)
    (within : index < combination.cardinality) {invocation : Invocation}
    (found : combination.invocation? index = some invocation) :
    Picked apply lambda.prototype.iterated (combination.pick index).2 ∧
      invocation =
        { lambda
          bindings := select (combination.pick index).2 apply.bindings
          channel := apply.channel } := by
  obtain ⟨_, values, counted, sameApply, tasks, correlated⟩ :=
    ofApply_single_ok single combined
  obtain ⟨_, iterated⟩ := valuesOf_eq_ok_iff.mp values
  rw [iterated] at counted
  have lengths :=
    fun param (member : param ∈ lambda.prototype.iterated) =>
      length_of_lt_count counted within member
  have picked : Picked apply lambda.prototype.iterated (combination.pick index).2 := by
    unfold pick
    split
    next taken =>
      rw [iterated]
      exact picked_pickInStep fun param member => (lengths param member).1 (correlated ▸ taken)
    next =>
      rw [iterated, ← List.map_reverse]
      have picked : Picked apply lambda.prototype.iterated.reverse
          (pickChoice index (lambda.prototype.iterated.reverse.map (runThrough apply))).1 :=
        picked_pickChoice fun param member => (lengths param (List.mem_reverse.mp member)).2
      exact picked.of_mem_iff fun param => List.mem_reverse.symm
  have task : ∀ task, (combination.pick index).1 = some task → task = lambda := by
    intro task chosen
    unfold pick at chosen
    rw [tasks] at chosen
    split at chosen
    · simpa [eq_comm] using chosen
    · simp only at chosen
      cases left : (pickChoice index combination.iterated.reverse).2 with
      | zero => simpa [left, eq_comm] using chosen
      | succ more => simp [left] at chosen
  refine ⟨picked, ?_⟩
  unfold invocation? at found
  cases chosen : (combination.pick index).1 with
  | none => simp [chosen] at found
  | some task_ =>
      simp only [chosen, Option.map_some, Option.some.injEq] at found
      rw [← found, task _ chosen, sameApply]

end Single

end Combination

/-- One value under each iterated parameter, and something under each aggregate. -/
structure Invocation.Single (invocation : Invocation) : Prop where
  bound :
    ∀ param ∈ invocation.lambda.prototype.aggregates,
    invocation.bindings.contains param = true
  picked :
    ∀ param ∈ invocation.lambda.prototype.iterated,
    ∃ value, value.isNormal = true ∧ invocation.bindings.get? param = some [value] ∧
    ∀ entry ∈ invocation.bindings, entry.1 = param → entry.2 = [value]

namespace Combination

variable {apply : Apply} {lambda : Lambda} {combination : Combination}
  {invocation : Invocation} {index : Nat}

theorem single_of_invocation? (single : apply.task = [.lambda lambda])
    (combined : ofApply apply = .ok combination)
    (within : index < combination.cardinality)
    (found : combination.invocation? index = some invocation) : invocation.Single := by
  obtain ⟨bound, values, _⟩ := ofApply_single_ok single combined
  obtain ⟨picked, rfl⟩ := invocation?_single single combined within found
  obtain ⟨known, _⟩ := valuesOf_eq_ok_iff.mp values
  refine ⟨fun param member => ?_, fun param member => ?_⟩
  · rw [contains_select]
    exact checkBound_eq_ok_iff.mp bound param member
  · obtain ⟨values, boundTo, normal⟩ := known param member
    obtain ⟨value, chosen, among⟩ := picked.chosen param member
    simp only [runThrough, boundTo, Option.getD_some] at among
    refine ⟨value, List.all_eq_true.mp normal value among, ?_, ?_⟩
    · rw [get?_select, chosen, boundTo]
      rfl
    · intro entry present named
      obtain ⟨before, _, rfl⟩ := List.mem_map.mp present
      have sameName : before.1 = param := by
        cases taken : OrderedMap.get? (combination.pick index).2 before.1 <;>
          simpa [taken] using named
      simp [sameName, chosen]

/-- Evaluating what is passed on whole commutes with picking one invocation. -/
theorem invocation?_advance (keeps : KeepsValues further)
    (single : apply.task = [.lambda lambda]) (combined : ofApply apply = .ok combination)
    (within : index < combination.cardinality) :
    invocation? { combination with apply := apply.advance further } index =
      (combination.invocation? index).map (Invocation.advance further) := by
  have samePick : pick { combination with apply := apply.advance further } index =
      combination.pick index := rfl
  unfold invocation?
  rw [samePick]
  cases chosen : (combination.pick index).1 with
  | none => simp [chosen]
  | some task =>
      obtain ⟨_, values, _, sameApply, _⟩ := ofApply_single_ok single combined
      have found : combination.invocation? index =
          some ⟨task, select (combination.pick index).2 combination.apply.bindings,
            combination.apply.channel⟩ := by
        simp [invocation?, chosen]
      obtain ⟨picked, _⟩ := invocation?_single single combined within found
      obtain ⟨known, _⟩ := valuesOf_eq_ok_iff.mp values
      have normal : ∀ param value, OrderedMap.get? (combination.pick index).2 param =
          some value → value.isNormal = true := by
        intro param value taken
        by_cases member : param ∈ lambda.prototype.iterated
        · obtain ⟨values, boundTo, normal⟩ := known param member
          obtain ⟨again, sameValue, among⟩ := picked.chosen param member
          rw [taken, Option.some.injEq] at sameValue
          simp only [runThrough, boundTo, Option.getD_some] at among
          exact List.all_eq_true.mp normal value (sameValue ▸ among)
        · simp [picked.nothingElse param member] at taken
      simp only [chosen, Option.map_some, sameApply, Apply.advance, Invocation.advance,
        select_mapValues keeps normal]

theorem invocations_advance (keeps : KeepsValues further)
    (single : apply.task = [.lambda lambda])
    (combined : ofApply apply = .ok combination) :
    invocations { combination with apply := apply.advance further } =
      combination.invocations.map (Invocation.advance further) := by
  unfold invocations
  rw [List.map_filterMap]
  refine List.filterMap_congr fun index member => ?_
  exact invocation?_advance keeps single combined (List.mem_range.mp member)

theorem ofApply_advance (keeps : KeepsValues further)
    (single : apply.task = [.lambda lambda])
    (combined : ofApply apply = .ok combination) :
    ofApply (apply.advance further) =
      .ok { combination with apply := apply.advance further } := by
  obtain ⟨bound, values, counted, _, tasks, correlated⟩ :=
    ofApply_single_ok single combined
  have sameTask : (apply.advance further).task = [.lambda lambda] := by
    have value : further (.lambda lambda) = [.lambda lambda] := keeps rfl
    simp [Apply.advance, single, value]
  rw [ofApply_single sameTask (checkBound_advance.mpr bound)
    (valuesOf_advance keeps values) (count_congr counted), ← tasks, ← correlated]

/-- What is rejected stays rejected when it is evaluated further. -/
theorem ofApply_advance_rejected {error : ReduceError}
    (keeps : KeepsValues further) (single : apply.task = [.lambda lambda])
    (rejected : ofApply apply = .error (.rejected error)) :
    ∃ later, ofApply (apply.advance further) = .error (.rejected later) := by
  have value : further (.lambda lambda) = [.lambda lambda] := keeps rfl
  have sameTask : (apply.advance further).task = [.lambda lambda] := by
    simp [Apply.advance, single, value]
  simp only [ofApply, single, sameTask, tasksOf, Except.map] at rejected ⊢
  cases bound : checkBound (apply.advance further) lambda.prototype.aggregates with
  | error obstacle =>
      obtain ⟨later, rfl⟩ := checkBound_error bound
      exact ⟨later, rfl⟩
  | ok _ =>
      simp only [checkBound_advance.mp bound] at rejected
      cases values : valuesOf apply lambda.prototype.iterated with
      | error obstacle =>
          simp only [values, Except.error.injEq] at rejected
          subst rejected
          obtain ⟨later, found⟩ := valuesOf_advance_rejected keeps values
          exact ⟨later, by simp [found]⟩
      | ok iterated =>
          cases counted : count apply lambda.prototype.correlated [lambda] iterated with
          | error obstacle =>
              obtain ⟨_, later, found⟩ := count_error counted (apply.advance further)
              exact ⟨later, by simp [valuesOf_advance keeps values, found]⟩
          | ok cardinality => simp [values, counted] at rejected

theorem count_eq_one {params : List String} {correlated : Bool}
    (one : ∀ param ∈ params, (runThrough apply param).2.length = 1) :
    count apply correlated [lambda] (params.map (runThrough apply)) = .ok 1 := by
  have lengthsOf : lengths [lambda] (params.map (runThrough apply)) =
      params.map fun param => (param, 1) := by
    simp only [lengths, List.length_singleton, Nat.lt_irrefl, if_false,
      List.nil_append, List.map_map]
    exact List.map_congr_left fun param member => Prod.ext rfl (one param member)
  unfold count
  split
  · rw [lengthsOf]
    cases params <;> simp [correlatedCount]
  · rw [choiceCount_eq_one (List.forall_mem_map.mpr one)]

theorem pickChoice_zero {iterated : List (String × Compound)} :
    (pickChoice 0 iterated).2 = 0 := by
  induction iterated with
  | nil => rfl
  | cons entry rest ih =>
      obtain ⟨param, values⟩ := entry
      unfold pickChoice
      rw [Nat.zero_div]
      cases values[0 % values.length]? <;> exact ih

/-- A single invocation has one value under each iterated parameter, so it
is its own combination. -/
theorem invocations_toApply (single : invocation.Single) :
    ∃ combination, ofApply invocation.toApply = .ok combination ∧
      combination.invocations = [invocation] := by
  have task : invocation.toApply.task = [.lambda invocation.lambda] := rfl
  have bound :
      checkBound invocation.toApply invocation.lambda.prototype.aggregates = .ok () :=
    checkBound_eq_ok_iff.mpr single.bound
  have values : valuesOf invocation.toApply invocation.lambda.prototype.iterated =
      .ok (invocation.lambda.prototype.iterated.map (runThrough invocation.toApply)) := by
    refine valuesOf_eq_ok_iff.mpr ⟨fun param member => ?_, rfl⟩
    obtain ⟨value, normal, found, _⟩ := single.picked param member
    exact ⟨[value], found, by simpa [Compound.isNormal] using normal⟩
  have alone : ∀ param ∈ invocation.lambda.prototype.iterated, ∃ value,
      (runThrough invocation.toApply param).2 = [value] ∧
        ∀ entry ∈ invocation.bindings, entry.1 = param → entry.2 = [value] := by
    intro param member
    obtain ⟨value, _, found, others⟩ := single.picked param member
    have here : invocation.toApply.bindings.get? param = some [value] := found
    exact ⟨value, by simp [runThrough, here], others⟩
  have counted :
      count invocation.toApply invocation.lambda.prototype.correlated [invocation.lambda]
        (invocation.lambda.prototype.iterated.map (runThrough invocation.toApply)) =
        .ok 1 := by
    refine count_eq_one fun param member => ?_
    obtain ⟨value, here, _⟩ := alone param member
    simp [here]
  have combined := ofApply_single task bound values counted
  refine ⟨_, combined, ?_⟩
  generalize packed : (Combination.mk _ _ _ _ _) = combination at combined ⊢
  have cardinality : combination.cardinality = 1 := by rw [← packed]
  have chosen : (combination.pick 0).1 = some invocation.lambda := by
    rw [← packed]
    unfold pick
    split
    · rfl
    · simp only [pickChoice_zero]
      rfl
  have found : combination.invocation? 0 = some ⟨invocation.lambda,
      select (combination.pick 0).2 combination.apply.bindings,
      combination.apply.channel⟩ := by
    simp [invocation?, chosen]
  obtain ⟨picked, _⟩ := invocation?_single task combined (cardinality ▸ Nat.one_pos) found
  have unchanged :
      select (combination.pick 0).2 invocation.bindings = invocation.bindings := by
    conv_rhs => rw [← List.map_id invocation.bindings]
    refine List.map_congr_left fun entry member => ?_
    cases taken : OrderedMap.get? (combination.pick 0).2 entry.1 with
    | none => rfl
    | some value =>
        have iterated : entry.1 ∈ invocation.lambda.prototype.iterated := by
          refine Classical.byContradiction fun absent => ?_
          simp [picked.nothingElse entry.1 absent] at taken
        obtain ⟨only, here, others⟩ := alone entry.1 iterated
        obtain ⟨again, sameValue, among⟩ := picked.chosen entry.1 iterated
        rw [taken, Option.some.injEq] at sameValue
        rw [here, List.mem_singleton] at among
        simp only [id_eq]
        rw [sameValue, among, ← others entry member rfl]
  have apply : combination.apply = invocation.toApply := by rw [← packed]
  have channel : invocation.toApply.channel = invocation.channel := rfl
  have bindings : invocation.toApply.bindings = invocation.bindings := rfl
  rw [apply, channel, bindings, unchanged] at found
  simp [invocations, cardinality, List.range_one, found]

end Combination

end TicketFlow
