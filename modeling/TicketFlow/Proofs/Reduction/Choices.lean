import Mathlib.Algebra.BigOperators.Group.List.Basic
import Mathlib.Data.List.Forall2
import Mathlib.Data.List.Induction
import TicketFlow.Proofs.Reduction.Combination

namespace TicketFlow

/-! Every choice of values, once and in order.

A number below the product of some sizes is read as one position below each
size, in the mixed radix of the sizes.  The numbers in ascending order give the
positions in lexicographic order, the last one fastest, and each choice once.
So every invocation of a combination picks values that exist, and there are as
many of them as their number says.
-/

/-- One position below each size, in every way; the last position varies fastest. -/
def positions : List Nat → List (List Nat)
  | [] => [[]]
  | size :: rest =>
      (List.range size).flatMap fun first => (positions rest).map (first :: ·)

/-- The list has every choice of one position below each size, once,
in lexicographic order. -/
structure ListsChoices (sizes : List Nat) (choices : List (List Nat)) : Prop where
  complete : ∀ choice, choice ∈ choices ↔ List.Forall₂ (· < ·) choice sizes
  ascending : choices.Pairwise (· < ·)

section Positions

variable {sizes choice : List Nat}

theorem mem_positions : choice ∈ positions sizes ↔ List.Forall₂ (· < ·) choice sizes := by
  induction sizes generalizing choice with
  | nil => simp [positions]
  | cons size rest ih =>
      simp only [positions, List.mem_flatMap, List.mem_range, List.mem_map, ih]
      constructor
      · rintro ⟨first, below, others, chosen, rfl⟩
        exact .cons below chosen
      · rintro (_ | ⟨below, chosen⟩)
        exact ⟨_, below, _, chosen, rfl⟩

theorem length_of_mem_positions (among : choice ∈ positions sizes) :
    choice.length = sizes.length :=
  (mem_positions.mp among).length_eq

theorem pairwise_positions (sizes : List Nat) : (positions sizes).Pairwise (· < ·) := by
  induction sizes with
  | nil => exact List.pairwise_singleton _ _
  | cons size rest ih =>
      refine List.pairwise_flatMap.mpr ⟨fun first _ => ?_, ?_⟩
      · refine List.pairwise_map.mpr (ih.imp fun before => ?_)
        exact List.cons_lt_cons_iff.mpr (.inr ⟨rfl, before⟩)
      · refine List.pairwise_lt_range.imp fun before => ?_
        intro choice inFirst other inSecond
        obtain ⟨_, _, rfl⟩ := List.mem_map.mp inFirst
        obtain ⟨_, _, rfl⟩ := List.mem_map.mp inSecond
        exact List.cons_lt_cons_iff.mpr (.inl before)

theorem listsChoices_positions (sizes : List Nat) :
    ListsChoices sizes (positions sizes) :=
  ⟨fun _ => mem_positions, pairwise_positions sizes⟩

theorem positions_concat (sizes : List Nat) (last : Nat) :
    positions (sizes ++ [last]) =
      (positions sizes).flatMap fun choice => (List.range last).map (choice ++ [·]) := by
  induction sizes with
  | nil => simp [positions, List.map_eq_flatMap]
  | cons size rest ih =>
      simp only [List.cons_append, positions, ih, List.flatMap_assoc, List.map_flatMap,
        List.map_map, List.flatMap_map]
      rfl

/-- Counting in two digits, the second one fastest. -/
theorem range_mul (count last : Nat) :
    List.range (count * last) =
      (List.range count).flatMap fun high => (List.range last).map (high * last + ·) := by
  induction count with
  | zero => simp
  | succ count ih =>
      rw [Nat.succ_mul, List.range_add, ih, List.range_succ, List.flatMap_append]
      simp

end Positions

namespace Combination

variable {apply : Apply} {iterated : List (String × Compound)} {combination : Combination}
  {first : Lambda} {others : List Lambda} {index : Nat} {choice : List Nat}

def sizes (iterated : List (String × Compound)) : List Nat :=
  iterated.map fun entry => entry.2.length

/-- The values at these positions, one for each parameter. -/
def picksAt (iterated : List (String × Compound)) (choice : List Nat) :
    List (String × Term) :=
  (iterated.zip choice).filterMap
    fun place => place.1.2[place.2]?.map fun value => (place.1.1, value)

section Reading

theorem picksAt_concat {entry : String × Compound}
    {position : Nat} (length : choice.length = iterated.length) :
    picksAt (iterated ++ [entry]) (choice ++ [position]) =
      picksAt iterated choice ++
        (entry.2[position]?.map fun value => (entry.1, value)).toList := by
  rw [picksAt, List.zip_append length.symm, List.filterMap_append, picksAt,
    List.zip_cons_cons, List.zip_nil_left, List.filterMap_cons, List.filterMap_nil]
  cases entry.2[position]? <;> rfl

theorem pickChoice_cons (index : Nat) (entry : String × Compound)
    (rest : List (String × Compound)) : pickChoice index (entry :: rest) =
      ((entry.2[index % entry.2.length]?.map fun value => (entry.1, value)).toList ++
          (pickChoice (index / entry.2.length) rest).1,
        (pickChoice (index / entry.2.length) rest).2) := by
  obtain ⟨param, values⟩ := entry
  conv_lhs => unfold pickChoice
  cases values[index % values.length]? <;> rfl

/-- The last digit is the position of the last parameter. -/
theorem pickChoice_concat {entry : String × Compound}
    {high low : Nat} (below : low < entry.2.length) :
    pickChoice (high * entry.2.length + low) (iterated ++ [entry]).reverse =
      ((entry.2[low]?.map fun value => (entry.1, value)).toList ++
        (pickChoice high iterated.reverse).1, (pickChoice high iterated.reverse).2) := by
  have digit : (high * entry.2.length + low) % entry.2.length = low := by
    rw [Nat.mul_add_mod_self_right, Nat.mod_eq_of_lt below]
  have rest : (high * entry.2.length + low) / entry.2.length = high := by
    rw [Nat.mul_comm, Nat.mul_add_div (Nat.zero_lt_of_lt below),
      Nat.div_eq_of_lt below, Nat.add_zero]
  rw [List.reverse_append, List.reverse_singleton, List.singleton_append,
    pickChoice_cons, digit, rest]

/-- The numbers below the product of the sizes are read as all choices, in order. -/
theorem map_pickChoice_range (iterated : List (String × Compound)) :
    (List.range (sizes iterated).prod).map (pickChoice · iterated.reverse) =
      (positions (sizes iterated)).map fun choice =>
        ((picksAt iterated choice).reverse, 0) := by
  induction iterated using List.reverseRecOn with
  | nil => rfl
  | append_singleton init entry ih =>
      -- both sides add the position of the last parameter to what the others come to
      have added := congrArg (List.flatMap fun read : List (String × Term) × Nat =>
        (List.range entry.2.length).map fun low =>
          ((entry.2[low]?.map fun value => (entry.1, value)).toList ++ read.1, read.2)) ih
      rw [List.flatMap_map, List.flatMap_map] at added
      have size : sizes (init ++ [entry]) = sizes init ++ [entry.2.length] :=
        List.map_append
      rw [size, List.prod_append, List.prod_singleton, range_mul, positions_concat,
        List.map_flatMap, List.map_flatMap]
      refine Eq.trans ?_ (added.trans ?_)
      · refine List.flatMap_congr fun high _ => ?_
        rw [List.map_map]
        exact List.map_congr_left fun low below => pickChoice_concat (List.mem_range.mp below)
      · refine List.flatMap_congr fun choice among => ?_
        rw [List.map_map]
        refine List.map_congr_left fun low _ => ?_
        have length : choice.length = init.length := by
          simpa [sizes] using length_of_mem_positions among
        simp only [Function.comp_apply, picksAt_concat length, List.reverse_append]
        cases entry.2[low]? <;> rfl

theorem pickChoice_left (index : Nat) (iterated : List (String × Compound)) :
    (pickChoice index iterated).2 = index / (sizes iterated).prod := by
  induction iterated generalizing index with
  | nil => simp [pickChoice, sizes]
  | cons entry rest ih =>
      have product : (sizes (entry :: rest)).prod = entry.2.length * (sizes rest).prod :=
        List.prod_cons
      rw [pickChoice_cons, product, ← Nat.div_div_eq_div_mul, ← ih]

theorem pickInStep_eq (index : Nat) (iterated : List (String × Compound)) :
    pickInStep index iterated = picksAt iterated (iterated.map fun _ => index) := by
  induction iterated with
  | nil => rfl
  | cons entry rest ih =>
      rw [List.map_cons, picksAt, List.zip_cons_cons, pickInStep, List.filterMap_cons,
        List.filterMap_cons, ← picksAt, ← ih]
      rfl

end Reading

section Making

/-- What a combination of these tasks consists of. -/
structure MadeOf (apply : Apply) (first : Lambda) (others : List Lambda)
    (combination : Combination) : Prop where
  task : apply.task = (first :: others).map .lambda
  bound : ∀ param ∈ first.prototype.aggregates, apply.bindings.contains param = true
  known :
    ∀ param ∈ first.prototype.iterated, ∃ value, apply.bindings.get? param = some value ∧
    Compound.isNormal value = true
  counted :
    count apply first.prototype.correlated (first :: others)
      (first.prototype.iterated.map (runThrough apply)) = .ok combination.cardinality
  whole : combination =
    { apply, tasks := first :: others,
      iterated := first.prototype.iterated.map (runThrough apply)
      correlated := first.prototype.correlated, cardinality := combination.cardinality }

/-- Where all that is taken is known, only the number of invocations can fail. -/
theorem ofApply_eq (task : apply.task = (first :: others).map .lambda)
    (bound : ∀ param ∈ first.prototype.aggregates, apply.bindings.contains param = true)
    (known : ∀ param ∈ first.prototype.iterated,
      ∃ value, apply.bindings.get? param = some value ∧
      Compound.isNormal value = true) :
    ofApply apply =
      (count apply first.prototype.correlated (first :: others)
        (first.prototype.iterated.map (runThrough apply))).map fun cardinality =>
          { apply, tasks := first :: others,
            iterated := first.prototype.iterated.map (runThrough apply), cardinality
            correlated := first.prototype.correlated } := by
  rw [ofApply, tasksOf_eq_ok_iff.mpr task]
  simp only [checkBound_eq_ok_iff.mpr bound, valuesOf_eq_ok_iff.mpr ⟨known, rfl⟩]

theorem ofApply_eq_ok_iff : ofApply apply = .ok combination ↔
    (apply.task = [] ∧
        combination =
          { apply, tasks := [], iterated := [], correlated := false, cardinality := 0 }) ∨
      ∃ first others, MadeOf apply first others combination := by
  constructor
  · intro combined
    unfold ofApply at combined
    split at combined
    · simp at combined
    next none_ =>
      exact .inl ⟨by simpa using tasksOf_eq_ok_iff.mp none_, (Except.ok.inj combined).symm⟩
    next first others tasks =>
      refine .inr ⟨first, others, ?_⟩
      cases bound : checkBound apply first.prototype.aggregates with
      | error obstacle => simp [bound] at combined
      | ok _ =>
          cases values : valuesOf apply first.prototype.iterated with
          | error obstacle => simp [bound, values] at combined
          | ok iterated =>
              obtain ⟨known, rfl⟩ := valuesOf_eq_ok_iff.mp values
              simp only [bound, values] at combined
              cases counted : count apply first.prototype.correlated (first :: others)
                  (first.prototype.iterated.map (runThrough apply)) with
              | error obstacle => simp [counted, Except.map] at combined
              | ok cardinality =>
                  rw [counted] at combined
                  obtain rfl := Except.ok.inj combined
                  exact ⟨tasksOf_eq_ok_iff.mp tasks, checkBound_eq_ok_iff.mp bound,
                    known, counted, rfl⟩
  · rintro (⟨none_, rfl⟩ | ⟨first, others, made⟩)
    · simp [ofApply, none_, tasksOf]
    · rw [ofApply_eq made.task made.bound made.known, made.counted,
        Except.map, ← made.whole]

variable (made : MadeOf apply first others combination)

include made

theorem MadeOf.apply_eq : combination.apply = apply := by rw [made.whole]

theorem MadeOf.tasks_eq : combination.tasks = first :: others := by rw [made.whole]

theorem MadeOf.iterated_eq :
    combination.iterated = first.prototype.iterated.map (runThrough apply) := by
  rw [made.whole]

theorem MadeOf.correlated_eq :
    combination.correlated = first.prototype.correlated := by rw [made.whole]

end Making

section Counting

theorem correlatedCount_eq_ok_iff {lengths : List (String × Nat)} {count : Nat} :
    correlatedCount apply lengths = .ok count ↔
      (∀ entry ∈ lengths, entry.2 = count) ∧ (lengths = [] → count = 1) := by
  cases lengths with
  | nil => simp [correlatedCount, eq_comm]
  | cons entry rest =>
      simp only [correlatedCount]
      split
      next same =>
        simp only [List.all_eq_true, beq_iff_eq] at same
        refine ⟨fun counted =>
          ⟨fun other among => ?_, fun none_ => absurd none_ (List.cons_ne_nil _ _)⟩,
          fun counted => ?_⟩
        · exact (same other among).trans (Except.ok.inj counted)
        · rw [counted.1 entry List.mem_cons_self]
      next apart =>
        refine ⟨fun counted => by simp at counted, fun counted => absurd ?_ apart⟩
        simp only [List.all_eq_true, beq_iff_eq]
        exact fun other among =>
          (counted.1 other among).trans (counted.1 entry List.mem_cons_self).symm

/-- The number of choices of one of the tasks and of one value for each parameter. -/
def crossSize (combination : Combination) : Nat :=
  combination.tasks.length * (sizes combination.iterated).prod

theorem MadeOf.cardinality_eq (made : MadeOf apply first others combination)
    (apart : combination.correlated = false) :
    combination.cardinality = combination.crossSize % countLimit := by
  have counted := made.counted
  rw [← made.correlated_eq, ← made.tasks_eq, ← made.iterated_eq, count, apart] at counted
  exact (Except.ok.inj counted).symm

/-- In step, the number of invocations is the length of everything that is taken in step. -/
theorem MadeOf.lengths_eq (made : MadeOf apply first others combination)
    (correlated : combination.correlated = true) :
    (∀ entry ∈ lengths combination.tasks combination.iterated,
      entry.2 = combination.cardinality) ∧
      (lengths combination.tasks combination.iterated = [] → combination.cardinality = 1) := by
  have counted := made.counted
  rw [← made.correlated_eq, ← made.tasks_eq, ← made.iterated_eq, count,
    if_pos correlated] at counted
  exact correlatedCount_eq_ok_iff.mp counted

/-- What is read off an index is within range.  In step the index is a position in
every argument, and in the tasks if there are several.  Otherwise no size that it is
divided by is zero, so that every remainder is a position, and what is left in the end
is the position of a task. -/
def InRange (combination : Combination) (index : Nat) : Prop :=
  if combination.correlated then
    (∀ entry ∈ combination.iterated, index < entry.2.length) ∧
      (combination.tasks.length = 1 ∨ index < combination.tasks.length)
  else
    (∀ entry ∈ combination.iterated, 0 < entry.2.length) ∧
      (pickChoice index combination.iterated.reverse).2 < combination.tasks.length

theorem MadeOf.inRange (made : MadeOf apply first others combination)
    (within : index < combination.cardinality) : combination.InRange index := by
  unfold InRange
  split
  next correlated =>
    have same := (made.lengths_eq correlated).1
    refine ⟨fun entry among => ?_, ?_⟩
    · have length : entry.2.length = combination.cardinality :=
        same (entry.1, entry.2.length)
          (List.mem_append_right _ (List.mem_map.mpr ⟨entry, among, rfl⟩))
      omega
    · by_cases several : 1 < combination.tasks.length
      · have length : combination.tasks.length = combination.cardinality :=
          same (Prototype.taskLabel, combination.tasks.length)
            (List.mem_append_left _ (by simp [several]))
        omega
      · have tasks : combination.tasks.length = others.length + 1 := by
          rw [made.tasks_eq, List.length_cons]
        exact .inl (by omega)
  next apart =>
    have counted := made.cardinality_eq (by simpa using apart)
    have within : index < combination.crossSize :=
      Nat.lt_of_lt_of_le within (counted ▸ Nat.mod_le _ _)
    have positive : 0 < (sizes combination.iterated).prod :=
      Nat.pos_of_mul_pos_left (Nat.zero_lt_of_lt within)
    refine ⟨fun entry among => ?_, ?_⟩
    · exact List.prod_pos_iff_forall_pos_nat.mp positive _
        (List.mem_map.mpr ⟨entry, among, rfl⟩)
    · have reversed :
          (sizes combination.iterated.reverse).prod = (sizes combination.iterated).prod :=
        (List.reverse_perm _).map _ |>.prod_eq
      rw [pickChoice_left, reversed]
      exact Nat.div_lt_of_lt_mul (Nat.mul_comm _ _ ▸ within)

theorem invocation?_eq (combination : Combination) (index : Nat) :
    combination.invocation? index = (combination.pick index).1.map fun lambda =>
      { lambda, bindings := select (combination.pick index).2 combination.apply.bindings
        channel := combination.apply.channel } := rfl

/-- Below its number every index gives an invocation. -/
theorem MadeOf.isSome_invocation? (made : MadeOf apply first others combination)
    (within : index < combination.cardinality) :
    (combination.invocation? index).isSome = true := by
  have inRange := made.inRange within
  rw [invocation?_eq, Option.isSome_map]
  unfold InRange at inRange
  unfold pick
  split
  next correlated =>
    rw [if_pos correlated] at inRange
    split
    · rfl
    next several =>
      have below : index < combination.tasks.length := by
        refine inRange.2.resolve_left fun single => ?_
        obtain ⟨task, single⟩ := List.length_eq_one_iff.mp single
        exact several task single
      rw [List.getElem?_eq_getElem below]
      rfl
  next apart =>
    rw [if_neg apart] at inRange
    show combination.tasks[(pickChoice index combination.iterated.reverse).2]?.isSome = true
    rw [List.getElem?_eq_getElem inRange.2]
    rfl

theorem MadeOf.length_invocations (made : MadeOf apply first others combination) :
    combination.invocations.length = combination.cardinality := by
  conv_rhs => rw [← List.length_range (n := combination.cardinality)]
  exact List.filterMap_length_eq_length.mpr
    fun index within => made.isSome_invocation? (List.mem_range.mp within)

end Counting

end Combination

end TicketFlow
