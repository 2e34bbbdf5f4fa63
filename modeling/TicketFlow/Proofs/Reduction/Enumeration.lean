import Mathlib.Data.List.Basic
import TicketFlow.Proofs.Reduction.Choices
import TicketFlow.Proofs.Reduction.Expansion

namespace TicketFlow

/-! The invocations of an application, without counting.

What an application of known tasks to known arguments stands for is written down
by choices of values instead of indices: every choice in lexicographic order, or
one value after the other in step.  The expansion of the application is exactly
this, in this order.
-/

variable {apply : Apply} {lambda first : Lambda} {others tasks : List Lambda}
  {params : List String} {choice : List Nat} {combination : Combination} {index : Nat}

/-- The length of the first of these; one if there is none. -/
def Combination.commonLength (lengths : List (String × Nat)) : Nat :=
  (lengths.head?.map Prod.snd).getD 1

namespace Apply

def argument (apply : Apply) (param : String) : Compound :=
  (apply.bindings.get? param).getD []

/-- How many values each of these parameters has to choose from. -/
def sizes (apply : Apply) (params : List String) : List Nat :=
  params.map fun param => (apply.argument param).length

/-- The invocation that has the values at these positions under the parameters.
Everything else is passed on whole, and everything stays in its place. -/
def singular (apply : Apply) (params : List String) (lambda : Lambda)
    (choice : List Nat) : Invocation where
  lambda
  bindings := apply.bindings.map fun binding =>
    match OrderedMap.get? (params.zip choice) binding.1 with
    | some position => (binding.1, (apply.argument binding.1)[position]?.toList)
    | none => binding
  channel := apply.channel

/-- One invocation for every choice of one value for each parameter. -/
def crossed (apply : Apply) (lambda : Lambda) : List Invocation :=
  (positions (apply.sizes lambda.prototype.iterated)).map
    (apply.singular lambda.prototype.iterated lambda)

/-- What is taken in step: the tasks if there are several, and every iterated argument. -/
def lengths (apply : Apply) (first : Lambda) (others : List Lambda) :
    List (String × Nat) :=
  Combination.lengths (first :: others)
    (first.prototype.iterated.map (Combination.runThrough apply))

/-- One invocation for each of the tasks, or as many as are taken in step if there is one
task.  Each has the values at its own position. -/
def zipped (apply : Apply) (first : Lambda) (others : List Lambda) (steps : Nat) :
    List Invocation :=
  (if others.isEmpty then List.replicate steps first else first :: others).mapIdx
    fun position task => apply.singular first.prototype.iterated task
      (first.prototype.iterated.map fun _ => position)

/-- What the application stands for if the first of its tasks decides
how arguments combine. -/
def denotedBy (apply : Apply) (first : Lambda) (others : List Lambda) : List Part :=
  if first.prototype.correlated then
    if (apply.lengths first others).Pairwise fun one other => one.2 = other.2 then
      (apply.zipped first others
        (Combination.commonLength (apply.lengths first others))).map .invoke
    else [.reject (.correlationMismatch apply (apply.lengths first others))]
  else (apply.crossed first).map .invoke

/-- What the application of these tasks stands for. -/
def denoted (apply : Apply) : List Lambda → List Part
  | [] => []
  | [single] => apply.denotedBy single []
  | first :: others =>
      if first.prototype.correlated then apply.denotedBy first others
      else (first :: others).flatMap fun lambda =>
        (apply.only (.lambda lambda)).denotedBy lambda []

/-- All that the lambda takes is there, and what it iterates over is known. -/
structure Supplies (apply : Apply) (lambda : Lambda) : Prop where
  bound :
    ∀ param ∈ lambda.prototype.aggregates ++ lambda.prototype.iterated,
    apply.bindings.contains param = true
  known :
    ∀ param ∈ lambda.prototype.iterated, Compound.isNormal (apply.argument param) = true

/-- The lambda can tell its parameters apart, and its invocations can be counted. -/
structure Ready (apply : Apply) (lambda : Lambda) :
    Prop extends apply.Supplies lambda where
  named : (lambda.prototype.params.map Param.name).Nodup
  counted :
    lambda.prototype.correlated = false →
    (apply.sizes lambda.prototype.iterated).prod < Combination.countLimit

theorem Supplies.aggregated (supplies : apply.Supplies lambda) :
    ∀ param ∈ lambda.prototype.aggregates, apply.bindings.contains param = true :=
  (List.forall_mem_append.mp supplies.bound).1

theorem Supplies.iterated (supplies : apply.Supplies lambda) :
    ∀ param ∈ lambda.prototype.iterated, ∃ value, apply.bindings.get? param = some value ∧
      Compound.isNormal value = true := by
  intro param among
  obtain ⟨value, bound⟩ :=
    OrderedMap.contains_eq_true_iff.mp
      ((List.forall_mem_append.mp supplies.bound).2 param among)
  exact ⟨value, bound, by simpa [argument, bound] using supplies.known param among⟩

theorem Ready.nodup (ready : apply.Ready lambda) : lambda.prototype.iterated.Nodup :=
  ready.named.sublist (List.filter_sublist.map Param.name)

end Apply

namespace Combination

section Selection

variable {name : String}

theorem runThrough_eq (apply : Apply) (param : String) :
    runThrough apply param = (param, apply.argument param) := rfl

theorem sizes_runThrough (apply : Apply) (params : List String) :
    sizes (params.map (runThrough apply)) = apply.sizes params :=
  List.map_map

theorem picksAt_cons {param : String} {values : Compound} {position : Nat}
    {rest : List (String × Compound)} (below : position < values.length) :
    picksAt ((param, values) :: rest) (position :: choice) =
      (param, values[position]) :: picksAt rest choice := by
  rw [picksAt, List.zip_cons_cons, List.filterMap_cons, List.getElem?_eq_getElem below]
  rfl

/-- A choice within range picks a value for every parameter. -/
theorem keys_picksAt (within : List.Forall₂ (· < ·) choice (apply.sizes params)) :
    OrderedMap.keys (picksAt (params.map (runThrough apply)) choice) = params := by
  induction params generalizing choice with
  | nil => rfl
  | cons param rest ih =>
      obtain _ | ⟨below, others⟩ := within
      rw [List.map_cons, runThrough_eq, picksAt_cons below]
      exact congrArg (param :: ·) (ih others)

theorem get?_picksAt (within : List.Forall₂ (· < ·) choice (apply.sizes params)) :
    OrderedMap.get? (picksAt (params.map (runThrough apply)) choice) name =
      (OrderedMap.get? (params.zip choice) name).bind fun position =>
        (apply.argument name)[position]? := by
  induction params generalizing choice with
  | nil => rfl
  | cons param rest ih =>
      obtain _ | ⟨below, others⟩ := within
      rw [List.map_cons, runThrough_eq, picksAt_cons below, List.zip_cons_cons,
        OrderedMap.get?, OrderedMap.get?]
      split
      next same => exact same ▸ (List.getElem?_eq_getElem below).symm
      next => exact ih others

theorem get?_zip_lt (within : List.Forall₂ (· < ·) choice (apply.sizes params))
    {position : Nat} (chosen : OrderedMap.get? (params.zip choice) name = some position) :
    position < (apply.argument name).length := by
  induction params generalizing choice with
  | nil => simp at chosen
  | cons param rest ih =>
      obtain _ | ⟨below, others⟩ := within
      rw [List.zip_cons_cons, OrderedMap.get?] at chosen
      split at chosen
      next same => exact same ▸ Option.some.inj chosen ▸ below
      next => exact ih others chosen

/-- Selecting the picked values is putting the values at these positions in their places. -/
theorem select_picksAt (lambda : Lambda)
    (within : List.Forall₂ (· < ·) choice (apply.sizes params)) :
    select (picksAt (params.map (runThrough apply)) choice) apply.bindings =
      (apply.singular params lambda choice).bindings := by
  refine List.map_congr_left fun binding _ => ?_
  rw [get?_picksAt within]
  cases chosen : OrderedMap.get? (params.zip choice) binding.1 with
  | none => rfl
  | some position =>
      simp only [Option.bind_some, List.getElem?_eq_getElem (get?_zip_lt within chosen),
        Option.toList_some]

/-- Of picks for different parameters the order does not matter. -/
theorem select_reverse {picks : List (String × Term)}
    {bindings : Bindings} (distinct : OrderedMap.Distinct picks) :
    select picks.reverse bindings = select picks bindings := by
  simp only [select, OrderedMap.get?_reverse distinct]

end Selection

section Crossing

/-- An application that takes its arguments independently of each other
always makes a combination. -/
theorem exists_madeOf (task : apply.task = (first :: others).map .lambda)
    (supplies : apply.Supplies first) (apart : first.prototype.correlated = false) :
    ∃ combination, MadeOf apply first others combination := by
  let iterated := first.prototype.iterated.map (runThrough apply)
  have counted : count apply first.prototype.correlated (first :: others) iterated =
      .ok (choiceCount (first :: others) iterated) := by rw [count, apart]; rfl
  exact ⟨⟨apply, first :: others, iterated, first.prototype.correlated, _⟩, task,
    supplies.aggregated, supplies.iterated, counted, rfl⟩

theorem MadeOf.invocation?_crossed (made : MadeOf apply first others combination)
    (apart : combination.correlated = false) : combination.invocation? index =
      (first :: others)[(pickChoice index combination.iterated.reverse).2]?.map fun lambda =>
        { lambda,
          bindings := select (pickChoice index combination.iterated.reverse).1 apply.bindings
          channel := apply.channel } := by
  rw [invocation?, pick, apart, made.tasks_eq, made.apply_eq]
  rfl

/-- The invocations of one task that does not take its arguments in step are
all choices, in order. -/
theorem MadeOf.invocations_crossed (made : MadeOf apply lambda [] combination)
    (apart : combination.correlated = false) (ready : apply.Ready lambda) :
    combination.invocations = apply.crossed lambda := by
  have sizes : sizes combination.iterated = apply.sizes lambda.prototype.iterated := by
    rw [made.iterated_eq, sizes_runThrough]
  have cardinality :
      combination.cardinality = (apply.sizes lambda.prototype.iterated).prod := by
    rw [made.cardinality_eq apart, crossSize, made.tasks_eq, List.length_singleton,
      Nat.one_mul, sizes, Nat.mod_eq_of_lt (ready.counted (made.correlated_eq ▸ apart))]
  have read := map_pickChoice_range combination.iterated
  rw [sizes, ← cardinality] at read
  have given : combination.invocation? = (fun read : List (String × Term) × Nat =>
      [lambda][read.2]?.map fun lambda =>
        { lambda, bindings := select read.1 apply.bindings,
          channel := apply.channel : Invocation }) ∘
      (pickChoice · combination.iterated.reverse) :=
      funext fun _ => made.invocation?_crossed apart
  rw [invocations, given, ← List.filterMap_map, read, List.filterMap_map, Apply.crossed,
    ← List.filterMap_eq_map]
  refine List.filterMap_congr fun choice among => ?_
  have within := mem_positions.mp among
  have distinct : OrderedMap.Distinct (picksAt combination.iterated choice) := by
    rw [made.iterated_eq, OrderedMap.Distinct, keys_picksAt within]
    exact ready.nodup
  simp only [Function.comp_apply, List.getElem?_cons_zero, Option.map_some,
    select_reverse distinct]
  rw [made.iterated_eq, select_picksAt lambda within]
  rfl

end Crossing

section Zipping

/-- Everything taken in step has one length, or the combination is rejected. -/
theorem correlatedCount_eq (apply : Apply) (lengths : List (String × Nat)) :
    correlatedCount apply lengths =
      if lengths.Pairwise fun one other => one.2 = other.2 then .ok (commonLength lengths)
      else .error (.rejected (.correlationMismatch apply lengths)) := by
  cases lengths with
  | nil => rfl
  | cons entry rest =>
      have same : (((entry :: rest).all fun other => other.2 == entry.2) = true) ↔
          (entry :: rest).Pairwise fun one other => one.2 = other.2 := by
        simp only [List.all_eq_true, beq_iff_eq]
        refine ⟨fun all => List.pairwise_of_forall_mem_list fun one first other second => ?_,
          fun pairwise => ?_⟩
        · exact (all one first).trans (all other second).symm
        · exact List.forall_mem_cons.mpr
            ⟨rfl, fun other among => ((List.pairwise_cons.mp pairwise).1 other among).symm⟩
      simp only [correlatedCount, same]
      rfl

theorem filterMap_range_getElem? {α β : Type} (f : Nat → α → β) (entries : List α) :
    (List.range entries.length).filterMap (fun index => entries[index]?.map (f index)) =
      entries.mapIdx f := by
  induction entries using List.reverseRecOn with
  | nil => rfl
  | append_singleton init last ih =>
      rw [List.length_append, List.length_singleton, List.range_succ,
        List.filterMap_append, List.mapIdx_concat, ← ih]
      congr 1
      · refine List.filterMap_congr fun index below => ?_
        rw [List.getElem?_append_left (List.mem_range.mp below)]
      · simp

theorem MadeOf.invocation?_zipped (made : MadeOf apply first others combination)
    (correlated : combination.correlated = true)
    (within : index < combination.cardinality) : combination.invocation? index =
      (if others.isEmpty then some first else (first :: others)[index]?).map
        fun task => apply.singular first.prototype.iterated task
          (first.prototype.iterated.map fun _ => index) := by
  have inRange := made.inRange within
  rw [InRange, if_pos correlated, made.iterated_eq] at inRange
  have below : List.Forall₂ (· < ·) (first.prototype.iterated.map fun _ => index)
      (apply.sizes first.prototype.iterated) := by
    rw [Apply.sizes, List.forall₂_map_left_iff, List.forall₂_map_right_iff,
      List.forall₂_same]
    exact fun param among => inRange.1 _ (List.mem_map_of_mem among)
  have task : (combination.pick index).1 = if others.isEmpty then some first else
      (first :: others)[index]? := by
    rw [pick, if_pos correlated, made.tasks_eq]
    cases others <;> rfl
  have picks : (combination.pick index).2 =
      picksAt (first.prototype.iterated.map (runThrough apply))
        (first.prototype.iterated.map fun _ => index) := by
    rw [pick, if_pos correlated, made.iterated_eq, pickInStep_eq, List.map_map]
    rfl
  rw [invocation?_eq, task, picks, made.apply_eq]
  refine Option.map_congr fun lambda _ => ?_
  rw [select_picksAt lambda below]
  rfl

theorem MadeOf.invocations_zipped (made : MadeOf apply first others combination)
    (correlated : combination.correlated = true) :
    combination.invocations = apply.zipped first others combination.cardinality := by
  have several := (made.lengths_eq correlated).1
  rw [made.tasks_eq] at several
  have length : (if others.isEmpty then List.replicate combination.cardinality first else
      first :: others).length = combination.cardinality := by
    cases others with
    | nil => exact List.length_replicate
    | cons second more =>
        refine several (Prototype.taskLabel, (first :: second :: more).length)
          (List.mem_append_left _ ?_)
        simp
  rw [Apply.zipped, ← filterMap_range_getElem?, length, invocations]
  refine List.filterMap_congr fun index within => ?_
  rw [made.invocation?_zipped correlated (List.mem_range.mp within)]
  split
  next => rw [List.getElem?_replicate, if_pos (List.mem_range.mp within)]
  next => rfl

end Zipping

end Combination

namespace Apply

theorem combine_of_ok (whole : apply.rest = false)
    (combined : Combination.ofApply apply = .ok combination) :
    apply.combine = combination.invocations.map .invoke := by
  rw [combine, whole, if_neg Bool.false_ne_true, combined]

/-- A combination of one task, or of tasks that are taken in step, has the
invocations that it stands for. -/
theorem combine_eq (whole : apply.rest = false)
    (task : apply.task = (first :: others).map .lambda) (ready : apply.Ready first)
    (inStep : first.prototype.correlated = true ∨ others = []) :
    apply.combine = apply.denotedBy first others := by
  by_cases correlated : first.prototype.correlated = true
  · have counted := Combination.correlatedCount_eq apply (apply.lengths first others)
    rw [denotedBy, if_pos correlated]
    by_cases same : (apply.lengths first others).Pairwise fun one other => one.2 = other.2
    · rw [if_pos same] at counted ⊢
      have made : Combination.MadeOf apply first others
          ⟨apply, first :: others, _, first.prototype.correlated,
            Combination.commonLength (apply.lengths first others)⟩ :=
        ⟨task, ready.aggregated, ready.iterated, (if_pos correlated).trans counted, rfl⟩
      rw [combine_of_ok whole (Combination.ofApply_eq_ok_iff.mpr (.inr ⟨_, _, made⟩)),
        made.invocations_zipped correlated]
    · rw [if_neg same] at counted ⊢
      have rejected := Combination.ofApply_eq task ready.aggregated ready.iterated
      rw [Combination.count, if_pos correlated] at rejected
      rw [combine, whole, if_neg Bool.false_ne_true, rejected, ← lengths, counted]
      rfl
  · obtain rfl : others = [] := inStep.resolve_left correlated
    obtain ⟨combination, made⟩ :=
      Combination.exists_madeOf task ready.toSupplies (by simpa using correlated)
    have apart : combination.correlated = false :=
      made.correlated_eq.trans (by simpa using correlated)
    rw [denotedBy, if_neg correlated,
      combine_of_ok whole (Combination.ofApply_eq_ok_iff.mpr (.inr ⟨_, _, made⟩)),
      made.invocations_crossed apart ready]

/-- The tasks whose prototypes decide how arguments combine. -/
def guides : List Lambda → List Lambda
  | [] => []
  | first :: others => if first.prototype.correlated then [first] else first :: others

theorem expandTask_lambda (whole : apply.rest = false) :
    apply.expandTask (.lambda lambda) = (apply.only (.lambda lambda)).combine := by
  have whole : (apply.only (.lambda lambda)).rest = false := whole
  exact congrArg combine (captureRest_of_whole whole)

/-- Several tasks are expanded one by one unless the first of them takes
its arguments in step. -/
theorem expand_several {second : Lambda} (whole : apply.rest = false)
    (task : apply.task = (first :: second :: others).map .lambda) :
    apply.expand = if first.prototype.correlated then apply.combine
      else (first :: second :: others).flatMap fun lambda =>
          (apply.only (.lambda lambda)).combine := by
  have normal : Compound.isNormal apply.task = true := by
    rw [task, Compound.isNormal, List.all_map]
    exact List.all_eq_true.mpr fun _ _ => rfl
  have parts : apply.expand = if first.prototype.correlated then apply.combine
      else if Compound.isNormal apply.task then apply.task.flatMap apply.expandTask else
          [.keep apply] := by
    rw [expand, task]
    rfl
  rw [parts, if_pos normal, task, List.flatMap_map]
  simp only [expandTask_lambda whole]

theorem expand_eq_denoted (whole : apply.rest = false)
    (task : apply.task = tasks.map .lambda)
    (ready : ∀ lambda ∈ guides tasks, apply.Ready lambda) :
    apply.expand = apply.denoted tasks := by
  rcases tasks with _ | ⟨first, _ | ⟨second, more⟩⟩
  · rw [expand, task]
    rfl
  · have guides : first ∈ guides [first] := by simp [Apply.guides]
    rw [expand_lambda task, captureRest_of_whole whole]
    exact combine_eq whole task (ready first guides) (.inr rfl)
  · have meant : apply.denoted (first :: second :: more) =
        if first.prototype.correlated then apply.denotedBy first _
        else (first :: second :: more).flatMap fun lambda =>
          (apply.only (.lambda lambda)).denotedBy lambda [] := rfl
    rw [expand_several whole task, meant]
    by_cases correlated : first.prototype.correlated = true
    · rw [if_pos correlated, if_pos correlated]
      exact combine_eq whole task (ready first (by simp [guides, correlated]))
        (.inl correlated)
    · rw [if_neg correlated, if_neg correlated]
      refine List.flatMap_congr fun lambda among => ?_
      have own : apply.Ready lambda := ready lambda (by rwa [guides, if_neg correlated])
      have whole : (apply.only (.lambda lambda)).rest = false := whole
      exact combine_eq whole rfl ⟨⟨own.bound, own.known⟩, own.named, own.counted⟩ (.inr rfl)

/-- An application of known tasks to known arguments is expanded to what it stands
for, in this order.  Whatever is combined, an invocation has the values at
positions that exist. -/
theorem expand_lists_denoted (whole : apply.rest = false)
    (task : apply.task = tasks.map .lambda)
    (ready : ∀ lambda ∈ guides tasks, apply.Ready lambda) :
    apply.expand = apply.denoted tasks ∧
      (∀ lambda, ∃ choices, ListsChoices (apply.sizes lambda.prototype.iterated) choices ∧
        apply.crossed lambda = choices.map (apply.singular lambda.prototype.iterated lambda)) ∧
      ∀ other combination index, Combination.ofApply other = .ok combination →
        index < combination.cardinality → combination.InRange index := by
  refine ⟨expand_eq_denoted whole task ready,
    fun lambda => ⟨_, listsChoices_positions _, rfl⟩, ?_⟩
  intro other combination index combined within
  rcases Combination.ofApply_eq_ok_iff.mp combined with ⟨_, rfl⟩ | ⟨first, others, made⟩
  · exact absurd within (Nat.not_lt_zero index)
  · exact made.inRange within

end Apply

/-- Takes the values of both arguments in step, or every value of one with
every value of the other. -/
def pairing (correlated : Bool) : Lambda :=
  .foreign
    { name := "pair", lang := "bash", script := "pair $a $b $all"
      prototype :=
        { params := [.plain "a", .aggregate "all", .plain "b"]
          outputs := ["o"]
          correlated } }

namespace Apply

def bothPairings : Apply where
  task := [.lambda (pairing false), .lambda (pairing true)]
  bindings := [("b", Compound.strs ["1", "2"]), ("a", Compound.strs ["x", "y"]),
    ("all", Compound.strs ["p", "q"])]
  channel := 1

/-- Each of the two tasks has its own expansion: four choices, and then two steps. -/
theorem expand_lists_denoted_bothPairings :
    bothPairings.rest = false ∧
      bothPairings.task = [pairing false, pairing true].map .lambda ∧
      (∀ lambda ∈ guides [pairing false, pairing true], bothPairings.Ready lambda) ∧
      bothPairings.expand = bothPairings.denoted [pairing false, pairing true] ∧
      bothPairings.expand.length = 6 := by
  have ready : ∀ lambda ∈ guides [pairing false, pairing true],
      bothPairings.Ready lambda := by
    have lambdas : guides [pairing false, pairing true] = [pairing false, pairing true] :=
      rfl
    rw [lambdas, List.forall_mem_cons, List.forall_mem_singleton]
    exact ⟨⟨⟨by decide, by decide⟩, by decide, by decide⟩,
      ⟨⟨by decide, by decide⟩, by decide, by decide⟩⟩
  exact ⟨rfl, rfl, ready,
    (@expand_lists_denoted bothPairings [pairing false, pairing true] rfl rfl ready).1,
    by decide⟩

end Apply

end TicketFlow
