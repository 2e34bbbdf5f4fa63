import TicketFlow.Proofs.Arena.Slots
import TicketFlow.Proofs.Reduction.Expansion
import TicketFlow.Reduction.Reduce

namespace TicketFlow

/-! Terms with the branches of their conditionals numbered differently.

Nothing else in a term is touched: strings and lambdas, whose bodies keep their
numbers, stay as they are.  What an application is expanded to does not depend
on the numbers, so an application that is kept is kept under other numbers too.
-/

mutual

/-- The term with the branches of all its conditionals renumbered. -/
def Term.relabel (number : BlockId → BlockId) : Term → Term
  | .apply task bindings channel rest =>
      .apply (relabelAll number task) (relabelBindings number bindings) channel rest
  | .cond condition prototype channel thenBlock elseBlock =>
      .cond (relabelAll number condition) prototype channel (number thenBlock)
        (number elseBlock)
  | .curry none bindings => .curry none (relabelBindings number bindings)
  | .curry (some task) bindings =>
      .curry (some (relabelAll number task)) (relabelBindings number bindings)
  | term => term
termination_by structural term => term

def Term.relabelAll (number : BlockId → BlockId) : List Term → List Term
  | [] => []
  | term :: rest => term.relabel number :: relabelAll number rest
termination_by structural terms => terms

def Term.relabelBindings (number : BlockId → BlockId) :
    List (String × List Term) → List (String × List Term)
  | [] => []
  | (key, value) :: rest => (key, relabelAll number value) :: relabelBindings number rest
termination_by structural bindings => bindings

end

abbrev Compound.relabel (number : BlockId → BlockId) (terms : Compound) : Compound :=
  terms.map (Term.relabel number)

abbrev Bindings.relabel (number : BlockId → BlockId) (bindings : Bindings) : Bindings :=
  OrderedMap.mapValues (Compound.relabel number) bindings

def Apply.relabel (number : BlockId → BlockId) (apply : Apply) : Apply :=
  { apply with
    task := Compound.relabel number apply.task,
    bindings := Bindings.relabel number apply.bindings }

def Block.relabel (number : BlockId → BlockId) (block : Block) : Block :=
  { block with bindings := Bindings.relabel number block.bindings }

variable {number : BlockId → BlockId} {term : Term} {terms : Compound}
  {bindings : Bindings} {apply : Apply}

section Terms

theorem Term.relabelAll_eq :
    ∀ terms : List Term, relabelAll number terms = Compound.relabel number terms
  | [] => rfl
  | _ :: rest => congrArg _ (relabelAll_eq rest)

theorem Term.relabelBindings_eq : ∀ bindings : List (String × List Term),
    relabelBindings number bindings = Bindings.relabel number bindings
  | [] => rfl
  | (_, value) :: rest => by
      rw [relabelBindings, relabelAll_eq, relabelBindings_eq rest]
      rfl

@[simp] theorem Term.relabel_apply {task : Compound} {channel : Nat} {rest : Bool} :
    relabel number (.apply task bindings channel rest) =
      .apply (Compound.relabel number task)
        (Bindings.relabel number bindings) channel rest := by
  rw [relabel, relabelAll_eq, relabelBindings_eq]

@[simp] theorem Term.relabel_cond {condition : Compound} {prototype : Prototype}
    {channel : Nat} {thenBlock elseBlock : BlockId} :
    relabel number (.cond condition prototype channel thenBlock elseBlock) =
      .cond (Compound.relabel number condition) prototype channel (number thenBlock)
        (number elseBlock) := by
  rw [relabel, relabelAll_eq]

@[simp] theorem Term.relabel_curry {task : Option Compound} :
    relabel number (.curry task bindings) =
      .curry (task.map (Compound.relabel number)) (Bindings.relabel number bindings) := by
  cases task with
  | none => rw [relabel, relabelBindings_eq]; rfl
  | some task => rw [relabel, relabelAll_eq, relabelBindings_eq]; rfl

@[simp] theorem Term.relabel_name (name : String) :
    relabel number (.name name) = .name name := rfl

@[simp] theorem Term.relabel_str (value : String) :
    relabel number (.str value) = .str value := rfl

@[simp] theorem Term.relabel_lambda (lambda : Lambda) :
    relabel number (.lambda lambda) = .lambda lambda := rfl

@[simp] theorem Term.relabel_ticket (placeholder : Placeholder) :
    relabel number (.ticket placeholder) = .ticket placeholder := rfl

theorem Apply.relabel_toTerm :
    apply.toTerm.relabel number = (apply.relabel number).toTerm :=
  Term.relabel_apply

@[simp] theorem Term.isNormal_relabel :
    (term.relabel number).isNormal = term.isNormal := by
  cases term with
  | curry task _ => cases task <;> rfl
  | _ => rfl

@[simp] theorem Compound.isNormal_relabel :
    Compound.isNormal (Compound.relabel number terms) = Compound.isNormal terms := by
  simp [Compound.isNormal, List.all_map, Function.comp_def]

theorem Term.relabel_eq_lambda_iff {lambda : Lambda} :
    term.relabel number = .lambda lambda ↔ term = .lambda lambda := by
  cases term with
  | curry task _ => cases task <;> simp
  | _ => simp

theorem Term.relabel_eq_name_iff {name : String} :
    term.relabel number = .name name ↔ term = .name name := by
  cases term with
  | curry task _ => cases task <;> simp
  | _ => simp

mutual

/-- Where its numbers stay the same a term does. -/
theorem Term.relabel_eq_self :
    ∀ term : Term, (∀ block ∈ term.blocks, number block = block) →
      term.relabel number = term
  | .name _, _ | .str _, _ | .lambda _, _ | .ticket _, _ => rfl
  | .apply task bindings channel rest, same => by
      obtain ⟨inTask, inBindings⟩ := List.forall_mem_append.mp same
      rw [relabel, relabelAll_eq_self task inTask,
        relabelBindings_eq_self bindings inBindings]
  | .cond condition prototype channel thenBlock elseBlock, same => by
      obtain ⟨inCondition, branches⟩ := List.forall_mem_append.mp same
      rw [relabel, relabelAll_eq_self condition inCondition,
        branches thenBlock List.mem_cons_self,
        branches elseBlock (List.mem_cons_of_mem _ List.mem_cons_self)]
  | .curry none bindings, same => by rw [relabel, relabelBindings_eq_self bindings same]
  | .curry (some task) bindings, same => by
      obtain ⟨inTask, inBindings⟩ := List.forall_mem_append.mp same
      rw [relabel, relabelAll_eq_self task inTask,
        relabelBindings_eq_self bindings inBindings]
termination_by structural term => term

theorem Term.relabelAll_eq_self : ∀ terms : List Term,
    (∀ block ∈ blocksOfAll terms, number block = block) → relabelAll number terms = terms
  | [], _ => rfl
  | term :: rest, same => by
      obtain ⟨here, later⟩ := List.forall_mem_append.mp same
      rw [relabelAll, relabel_eq_self term here, relabelAll_eq_self rest later]
termination_by structural terms => terms

theorem Term.relabelBindings_eq_self : ∀ bindings : List (String × List Term),
    (∀ block ∈ blocksOfBindings bindings, number block = block) →
      relabelBindings number bindings = bindings
  | [], _ => rfl
  | (_, value) :: rest, same => by
      obtain ⟨here, later⟩ := List.forall_mem_append.mp same
      rw [relabelBindings, relabelAll_eq_self value here,
        relabelBindings_eq_self rest later]
termination_by structural bindings => bindings

end

theorem Compound.relabel_eq_self (same : ∀ block ∈ terms.blocks, number block = block) :
    Compound.relabel number terms = terms :=
  (Term.relabelAll_eq terms).symm.trans (Term.relabelAll_eq_self terms same)

theorem Bindings.relabel_eq_self
    (same : ∀ block ∈ Term.blocksOfBindings bindings, number block = block) :
    Bindings.relabel number bindings = bindings :=
  (Term.relabelBindings_eq bindings).symm.trans (Term.relabelBindings_eq_self bindings same)

/-- A copy that binds names anew to copies of what they were bound to
is a copy of the block. -/
theorem Block.relabel_rebind {block original : Block}
    (same : block.relabel number = original)
    (bound : ∀ entry ∈ bindings,
      original.get? entry.1 = some (Compound.relabel number entry.2)) :
    (block.rebind bindings).relabel number = original := by
  induction bindings generalizing block with
  | nil => exact same
  | cons binding rest ih =>
      obtain ⟨here, later⟩ := List.forall_mem_cons.mp bound
      rw [rebind_cons]
      refine ih ?_ later
      subst same
      have bindingsSame :
          Bindings.relabel number (block.bindings.insert binding.1 binding.2) =
            Bindings.relabel number block.bindings :=
        OrderedMap.mapValues_insert.trans (OrderedMap.insert_of_get? here)
      rw [relabel, relabel, bindingsSame]

end Terms

section Applications

/-- Renumbering leaves values alone. -/
theorem keepsValues_relabel : KeepsValues fun term => [term.relabel number] := by
  intro term normal
  cases term with
  | str | lambda => rfl
  | curry task _ => cases task <;> simp [Term.isNormal] at normal
  | _ => simp [Term.isNormal] at normal

theorem Compound.relabel_normal (normal : Compound.isNormal terms = true) :
    Compound.relabel number terms = terms := by
  have keeps : KeepsValues fun term => [term.relabel number] := keepsValues_relabel
  rw [Compound.relabel, List.map_eq_flatMap, keeps.flatMap normal]

theorem Apply.relabel_eq_advance :
    apply.relabel number = apply.advance fun term => [term.relabel number] := by
  have each : List.flatMap (fun term => [term.relabel number]) = Compound.relabel number :=
    funext fun _ => List.map_eq_flatMap.symm
  rw [advance, each]
  rfl

namespace Combination

variable {further : Term → Compound}

theorem tasksOf_advance_rejected {early : Apply} (late : Apply)
    {task : Compound} {error : ReduceError} (keeps : KeepsValues further)
    (rejected : tasksOf early task = .error (.rejected error)) :
    ∃ later, tasksOf late (task.flatMap further) = .error (.rejected later) := by
  induction task with
  | nil => simp [tasksOf] at rejected
  | cons term rest ih =>
      by_cases normal : term.isNormal = true
      · rw [List.flatMap_cons, keeps normal, List.singleton_append]
        cases term with
        | lambda lambda =>
            cases others : tasksOf early rest with
            | ok tasks => simp [tasksOf, others, Except.map] at rejected
            | error obstacle =>
                obtain rfl : obstacle = .rejected error := by simpa [tasksOf, others,
                    Except.map] using rejected
                obtain ⟨later, found⟩ := ih others
                exact ⟨later, by simp [tasksOf, found, Except.map]⟩
        | str value => exact ⟨_, rfl⟩
        | _ => simp [Term.isNormal] at normal
      · cases term with
        | lambda lambda => exact absurd rfl normal
        | _ => simp [tasksOf, normal] at rejected

/-- What cannot be combined yet when it is evaluated further could not be combined before. -/
theorem notDerivable_of_advance {term : Term} (keeps : KeepsValues further)
    (late : ofApply (apply.advance further) = .error (.notDerivable term)) :
    ∃ early, ofApply apply = .error (.notDerivable early) := by
  cases tasks : tasksOf apply apply.task with
  | error obstacle =>
      cases obstacle with
      | notDerivable early => exact ⟨early, by rw [ofApply, tasks]⟩
      | rejected error =>
          obtain ⟨later, found⟩ :=
            tasksOf_advance_rejected (apply.advance further) keeps tasks
          have task : (apply.advance further).task = apply.task.flatMap further := rfl
          simp [ofApply, task, found] at late
  | ok lambdas =>
      have whole := tasksOf_eq_ok_iff.mp tasks
      have normal : Compound.isNormal apply.task = true := by
        rw [whole]
        simp [Compound.isNormal, Term.isNormal]
      have known :
          tasksOf (apply.advance further) (apply.advance further).task = .ok lambdas :=
        tasksOf_eq_ok_iff.mpr ((keeps.flatMap normal).trans whole)
      cases lambdas with
      | nil => simp [ofApply, known] at late
      | cons first others =>
          simp only [ofApply, known] at late
          cases bound : checkBound apply first.prototype.aggregates with
          | error obstacle =>
              cases boundLate : checkBound (apply.advance further)
                first.prototype.aggregates with
              | ok _ => simp [checkBound_advance.mp boundLate] at bound
              | error obstacle =>
                  obtain ⟨error, rfl⟩ := checkBound_error boundLate
                  simp [boundLate] at late
          | ok _ =>
              simp only [checkBound_advance.mpr bound] at late
              cases values : valuesOf apply first.prototype.iterated with
              | error obstacle =>
                  cases obstacle with
                  | notDerivable early =>
                      exact ⟨early, by simp only [ofApply, tasks, bound, values]⟩
                  | rejected error =>
                      obtain ⟨later, found⟩ := valuesOf_advance_rejected keeps values
                      simp [found] at late
              | ok iterated =>
                  simp only [valuesOf_advance keeps values] at late
                  cases counted : count (apply.advance further) first.prototype.correlated
                    (first :: others) iterated with
                  | ok cardinality => simp [counted, Except.map] at late
                  | error obstacle =>
                      obtain ⟨⟨error, rfl⟩, _⟩ := count_error counted apply
                      simp [counted, Except.map] at late

end Combination

/-- Expanded, the application is left as it is. -/
def Apply.Kept (apply : Apply) : Prop :=
  apply.expand = [.keep apply]

/-- One combination is left exactly while excess arguments wait for capture or
something in it is not known. -/
theorem Apply.combine_eq_keep_iff {kept : Apply} :
    apply.combine = [.keep kept] ↔
      kept = apply ∧ (apply.rest = true ∨
        ∃ term, Combination.ofApply apply = .error (.notDerivable term)) := by
  cases flag : apply.rest with
  | true => simp [combine, flag, eq_comm]
  | false =>
      cases combined : Combination.ofApply apply with
      | ok combination =>
          simp only [combine, flag, combined, Bool.false_eq_true, if_false, reduceCtorEq,
            exists_false, or_self, and_false, iff_false]
          intro same
          have among : Part.keep kept ∈ combination.invocations.map Part.invoke :=
            same ▸ List.mem_cons_self
          simp at among
      | error obstacle => cases obstacle <;> simp [combine, flag, combined, eq_comm]

theorem Apply.combine_of_keep_mem {kept : Apply} (member : .keep kept ∈ apply.combine) :
    kept = apply ∧ apply.combine = [.keep apply] := by
  unfold combine at member ⊢
  split at member
  next flag => exact ⟨Part.keep.inj (List.mem_singleton.mp member), if_pos flag⟩
  next flag =>
    rw [if_neg flag]
    split at member
    · simp at member
    · exact ⟨Part.keep.inj (List.mem_singleton.mp member), rfl⟩
    · simp at member

/-- A part that is kept of an application of one task is an application of this task. -/
theorem Apply.task_of_keep_mem_expandTask {task : Term} {kept : Apply}
    (member : .keep kept ∈ apply.expandTask task) : kept.task = [task] := by
  have single : (apply.only task).captureRest.task = [task] := task_captureRest
  unfold expandTask at member
  split at member
  · exact (combine_of_keep_mem member).1 ▸ single
  · exact Part.keep.inj (List.mem_singleton.mp member) ▸ single

/-- Of several tasks the first of which is correlated one combination is made. -/
theorem Apply.expand_correlated {first : Lambda} {second : Term}
    {others : Compound} (task : apply.task = .lambda first :: second :: others)
    (correlated : first.prototype.correlated = true) : apply.expand = apply.combine := by
  simp only [expand, task, correlated, if_true]

/-- An application that is kept under other numbers is kept. -/
theorem Apply.kept_of_relabel (kept : (apply.relabel number).Kept) : apply.Kept := by
  have keeps : KeepsValues fun term => [term.relabel number] := keepsValues_relabel
  unfold Kept at kept ⊢
  have combines
      (combined : (apply.relabel number).combine = [.keep (apply.relabel number)]) :
      apply.combine = [.keep apply] := by
    refine combine_eq_keep_iff.mpr ⟨rfl, (combine_eq_keep_iff.mp combined).2.imp id ?_⟩
    rintro ⟨term, late⟩
    exact Combination.notDerivable_of_advance keeps (relabel_eq_advance ▸ late)
  rcases task : apply.task with _ | ⟨first, _ | ⟨second, others⟩⟩
  · have none_left : (apply.relabel number).task = [] := by simp [relabel, task]
    simp [expand, none_left] at kept
  · by_cases known : ∃ lambda, first = .lambda lambda
    · obtain ⟨lambda, rfl⟩ := known
      have single : (apply.relabel number).task = [.lambda lambda] := by
        simp [relabel, task]
      rw [expand_lambda task]
      rw [expand_lambda single] at kept
      rcases apply.captureRest_cases with ⟨waits, flag⟩ | ⟨whole, _, _, captures⟩
      · rw [waits]
        exact combine_eq_keep_iff.mpr ⟨rfl, .inl flag⟩
      · -- once the excess arguments are captured, what is left is marked as whole
        have flag : apply.rest = false := by
          have same := (combine_eq_keep_iff.mp kept).1
          rw [relabel_eq_advance, captures keeps] at same
          exact (congrArg Apply.rest same).trans whole
        have late : (apply.relabel number).rest = false := flag
        rw [captureRest_of_whole late] at kept
        rw [captureRest_of_whole flag]
        exact combines kept
    · exact expand_other task fun lambda same => known ⟨lambda, same⟩
  · cases first with
    | lambda lambda =>
        have several : (apply.relabel number).task =
            .lambda lambda :: second.relabel number :: Compound.relabel number others := by
          simp [relabel, task]
        by_cases correlated : lambda.prototype.correlated = true
        · rw [expand_correlated task correlated]
          exact combines (by rwa [expand_correlated several correlated] at kept)
        · by_cases normal : Compound.isNormal apply.task = true
          · -- every part would be an application of one task
            have late : Compound.isNormal (apply.relabel number).task = true := by
              simpa [relabel] using normal
            rw [several] at late
            simp only [expand, several, correlated, late, Bool.false_eq_true, if_false,
              if_true] at kept
            have among : Part.keep (apply.relabel number) ∈
                List.flatMap (apply.relabel number).expandTask
                  (.lambda lambda :: second.relabel number ::
                    Compound.relabel number others) := by
              rw [kept]
              exact List.mem_cons_self
            obtain ⟨only, _, inside⟩ := List.mem_flatMap.mp among
            simp [task_of_keep_mem_expandTask inside] at several
          · rw [task] at normal
            simp only [expand, task, correlated, normal, Bool.false_eq_true, if_false]
    | _ => simp only [expand, task]

/-- What is kept of an application is kept when it is expanded once more. -/
theorem Apply.kept_of_mem_expand {kept : Apply}
    (member : .keep kept ∈ apply.expand) : kept.Kept := by
  have single {task : Term} (other : Apply) (sole : other.task = [task])
      (inside : .keep kept ∈ other.expand) : kept.Kept := by
    by_cases known : ∃ lambda, task = .lambda lambda
    · obtain ⟨lambda, rfl⟩ := known
      exact (stable_of_lambda sole inside).1
    · have left := expand_other sole fun lambda same => known ⟨lambda, same⟩
      rw [left] at inside
      exact Part.keep.inj (List.mem_singleton.mp inside) ▸ left
  have whole (left : apply.expand = [.keep apply]) : kept.Kept := by
    rw [left] at member
    exact Part.keep.inj (List.mem_singleton.mp member) ▸ left
  rcases task : apply.task with _ | ⟨first, _ | ⟨second, others⟩⟩
  · simp [expand, task] at member
  · exact single apply task member
  · cases first with
    | lambda lambda =>
        by_cases correlated : lambda.prototype.correlated = true
        · have combined := expand_correlated task correlated
          exact whole (combined.trans (combine_of_keep_mem (combined ▸ member)).2)
        · by_cases normal : Compound.isNormal (.lambda lambda :: second :: others) = true
          · simp only [expand, task, correlated, normal, Bool.false_eq_true, if_false,
              if_true] at member
            obtain ⟨only, _, inside⟩ := List.mem_flatMap.mp member
            exact single (apply.only only) rfl inside
          · exact whole
              (by simp only [expand, task, correlated, normal, Bool.false_eq_true, if_false])
    | _ => exact whole (by simp only [expand, task])

/-- An invocation of the foreign task waits for its arguments. -/
structure Apply.Called (apply : Apply) (lambda : ForeignLambda) : Prop where
  task : apply.task = [.lambda (.foreign lambda)]
  rest : apply.rest = false
  output : ∃ output, lambda.prototype.output? apply.channel = some output
  waiting : apply.areArgumentsNormal = false

/-- Nothing is left of the application to be expanded. -/
def Apply.Spent (apply : Apply) : Prop :=
  apply.Kept ∨ ∃ invocation : Invocation, invocation.Single ∧ apply = invocation.toApply

theorem Apply.task_of_relabel {lambda : Lambda}
    (task : (apply.relabel number).task = [.lambda lambda]) :
    apply.task = [.lambda lambda] := by
  obtain ⟨term, same, value⟩ := List.map_eq_singleton_iff.mp task
  rw [same, Term.relabel_eq_lambda_iff.mp value]

theorem Apply.Called.of_relabel {lambda : ForeignLambda}
    (called : (apply.relabel number).Called lambda) : apply.Called lambda where
  task := task_of_relabel called.task
  rest := called.rest
  output := called.output
  waiting := by
    have waiting := called.waiting
    simpa [areArgumentsNormal, relabel, OrderedMap.mapValues, List.all_map,
      Function.comp_def] using waiting

theorem Compound.eq_of_relabel {values : Compound}
    (same : Compound.relabel number terms = values)
    (normal : Compound.isNormal values = true) : terms = values := by
  rw [← same, Compound.isNormal_relabel] at normal
  rw [← same, Compound.relabel_normal normal]

theorem Apply.spent_of_relabel (spent : (apply.relabel number).Spent) : apply.Spent := by
  rcases spent with kept | ⟨invocation, single, same⟩
  · exact .inl (kept_of_relabel kept)
  · have task : apply.task = [.lambda invocation.lambda] :=
      task_of_relabel (congrArg Apply.task same)
    have bindings : Bindings.relabel number apply.bindings = invocation.bindings :=
      congrArg Apply.bindings same
    have rest : apply.rest = false := congrArg Apply.rest same
    refine .inr ⟨⟨invocation.lambda, apply.bindings, apply.channel⟩,
      ⟨fun param among => ?_, fun param among => ?_⟩, ?_⟩
    · have bound := single.bound param among
      rwa [← bindings, OrderedMap.contains_mapValues] at bound
    · obtain ⟨value, normal, found, entries⟩ := single.picked param among
      have alone : Compound.isNormal [value] = true := by
        simpa [Compound.isNormal] using normal
      refine ⟨value, normal, ?_, fun entry member named => ?_⟩
      · rw [← bindings, OrderedMap.get?_mapValues] at found
        obtain ⟨before, here, relabelled⟩ := Option.map_eq_some_iff.mp found
        exact here.trans (congrArg some (Compound.eq_of_relabel relabelled alone))
      · have late : (entry.1, Compound.relabel number entry.2) ∈ invocation.bindings :=
          bindings ▸ List.mem_map.mpr ⟨entry, member, rfl⟩
        exact Compound.eq_of_relabel (entries _ late named) alone
    · simp only [Invocation.toApply, ← task, ← rest]

end Applications

end TicketFlow
