import Mathlib.Algebra.Order.BigOperators.Group.List
import Mathlib.Algebra.Order.Ring.Nat
import TicketFlow.Proofs.Reduction.Enumeration

namespace TicketFlow

/-! Combinations that 64 bits cannot count.

Arguments that are taken independently of each other have as many invocations as
there are choices, modulo `2 ^ 64`.  So every choice has its invocation exactly
as long as the choices can be counted; beyond that some are missing, or all.
-/

namespace Apply

variable {apply : Apply} {lambda first : Lambda} {others tasks : List Lambda}
  {combination : Combination}

/-- The number of choices of one value for each parameter of the lambda. -/
def choices (apply : Apply) (lambda : Lambda) : Nat :=
  (apply.sizes lambda.prototype.iterated).prod

section Wrapping

open Combination (countLimit)

theorem mod_countLimit_eq_iff {number : Nat} :
    number % countLimit = number ↔ number < countLimit :=
  Nat.mod_eq_iff_lt (by decide)

/-- Numbers that wrap make the sum smaller, so that it is right only if each of them is. -/
theorem sum_mod_countLimit_eq_iff {α : Type} {numbers : α → Nat} {entries : List α} :
    (entries.map fun entry => numbers entry % countLimit).sum = (entries.map numbers).sum ↔
      ∀ entry ∈ entries, numbers entry < countLimit := by
  have least (rest : List α) :
      (rest.map fun entry => numbers entry % countLimit).sum ≤ (rest.map numbers).sum :=
    List.sum_le_sum fun entry _ => Nat.mod_le _ _
  induction entries with
  | nil => simp
  | cons entry rest ih =>
      rw [List.map_cons, List.sum_cons, List.map_cons, List.sum_cons,
        List.forall_mem_cons, ← mod_countLimit_eq_iff]
      refine Iff.trans ?_ (and_congr_right fun _ => ih)
      have here : numbers entry % countLimit ≤ numbers entry := Nat.mod_le _ _
      have there := least rest
      omega

end Wrapping

section Counting

open Combination (MadeOf countLimit)

theorem cardinality_crossed (made : MadeOf apply first others combination)
    (apart : first.prototype.correlated = false) :
    combination.cardinality =
      ((first :: others).length * apply.choices first) % countLimit := by
  rw [made.cardinality_eq (made.correlated_eq.trans apart), Combination.crossSize,
    made.tasks_eq, made.iterated_eq, Combination.sizes_runThrough, choices]

theorem length_combine (whole : apply.rest = false) (task : apply.task = [.lambda lambda])
    (supplies : apply.Supplies lambda) (apart : lambda.prototype.correlated = false) :
    apply.combine.length = apply.choices lambda % countLimit := by
  have task : apply.task = [lambda].map .lambda := task
  obtain ⟨combination, made⟩ := Combination.exists_madeOf task supplies apart
  rw [combine_of_ok whole (Combination.ofApply_eq_ok_iff.mpr (.inr ⟨_, _, made⟩)),
    List.length_map, made.length_invocations, cardinality_crossed made apart,
    List.length_singleton, Nat.one_mul]

/-- Tasks that take no arguments in step are expanded one after the other, each to what
can be counted of it. -/
theorem length_expand (whole : apply.rest = false) (task : apply.task = tasks.map .lambda)
    (supplies : ∀ lambda ∈ tasks, apply.Supplies lambda)
    (apart : ∀ lambda ∈ tasks, lambda.prototype.correlated = false) :
    apply.expand.length =
      (tasks.map fun lambda => apply.choices lambda % countLimit).sum := by
  rcases tasks with _ | ⟨first, _ | ⟨second, more⟩⟩
  · rw [expand, task]
    rfl
  · rw [List.forall_mem_singleton] at supplies apart
    rw [expand_lambda task, captureRest_of_whole whole,
      length_combine whole task supplies apart, List.map_singleton, List.sum_singleton]
  · rw [expand_several whole task, apart first List.mem_cons_self,
      if_neg Bool.false_ne_true, List.length_flatMap]
    refine congrArg List.sum (List.map_congr_left fun lambda among => ?_)
    have whole : (apply.only (.lambda lambda)).rest = false := whole
    have own := supplies lambda among
    exact length_combine whole rfl ⟨own.bound, own.known⟩ (apart lambda among)

/-- The choices that a combination counts are all of them if and only if 64 bits can count
them.  So an application of tasks that take no arguments in step has all its invocations
if and only if the choices of each task can be counted. -/
theorem counts_all_choices_iff (task : apply.task = (first :: others).map .lambda)
    (supplies : apply.Supplies first) (apart : first.prototype.correlated = false) :
    (∃ combination, Combination.ofApply apply = .ok combination ∧
      combination.invocations.length = combination.cardinality ∧
      combination.cardinality = ((first :: others).length * apply.choices first) % countLimit ∧
      (combination.cardinality = (first :: others).length * apply.choices first ↔
      (first :: others).length * apply.choices first < countLimit)) ∧
    (apply.rest = false →
      (∀ lambda ∈ others, apply.Supplies lambda ∧ lambda.prototype.correlated = false) →
      (apply.expand.length = ((first :: others).map apply.choices).sum ↔
        ∀ lambda ∈ first :: others, apply.choices lambda < countLimit)) := by
  constructor
  · obtain ⟨combination, made⟩ := Combination.exists_madeOf task supplies apart
    have cardinality := cardinality_crossed made apart
    exact ⟨combination, Combination.ofApply_eq_ok_iff.mpr (.inr ⟨_, _, made⟩),
      made.length_invocations, cardinality, cardinality ▸ mod_countLimit_eq_iff⟩
  · intro whole rest
    have supplied : ∀ lambda ∈ first :: others, apply.Supplies lambda :=
      List.forall_mem_cons.mpr ⟨supplies, fun lambda among => (rest lambda among).1⟩
    have uncorrelated : ∀ lambda ∈ first :: others, lambda.prototype.correlated = false :=
      List.forall_mem_cons.mpr ⟨apart, fun lambda among => (rest lambda among).2⟩
    rw [length_expand whole task supplied uncorrelated]
    exact sum_mod_countLimit_eq_iff

end Counting

section Wrapped

def letters : List String :=
  ["a", "b", "c", "d", "e", "f", "g", "h", "i", "j", "k", "l", "m", "n", "o", "p"]

def spell : Lambda :=
  .foreign
    { name := "spell", lang := "bash", script := "spell $a $b $c"
      prototype := { params := letters.map .plain, outputs := ["out"] } }

/-- A word of sixteen letters, each of which can be any of sixteen. -/
def words : Apply where
  task := [.lambda spell]
  bindings := letters.map fun letter => (letter, Compound.strs letters)
  channel := 1

/-- There are `2 ^ 64` words, which are counted as none: the application
is reduced to nothing. -/
theorem words_vanish :
    (∃ combination, Combination.ofApply words = .ok combination ∧
      combination.cardinality = 0) ∧ words.choices spell = 2 ^ 64 ∧ words.expand = [] :=
  ⟨⟨_, rfl, rfl⟩, by decide, rfl⟩

/-- Words of which two letters are known are still too few to be counted wrongly. -/
def shorterWords : Apply :=
  { words with
    bindings := (words.bindings.insert "a" (Compound.strs ["a"])).insert "b"
      (Compound.strs ["b"]) }

theorem counts_all_choices_iff_shorterWords :
    shorterWords.task = [spell].map .lambda ∧ shorterWords.Supplies spell ∧
      spell.prototype.correlated = false ∧ shorterWords.rest = false ∧
      shorterWords.choices spell < Combination.countLimit ∧
      shorterWords.expand.length = ([spell].map shorterWords.choices).sum := by
  have supplies : shorterWords.Supplies spell := ⟨by decide, by decide⟩
  have counted : shorterWords.choices spell < Combination.countLimit := by decide
  have exact := (@counts_all_choices_iff shorterWords spell [] rfl supplies rfl).2 rfl
    (fun _ among => absurd among List.not_mem_nil)
  exact ⟨rfl, supplies, rfl, rfl, counted, exact.mpr (List.forall_mem_singleton.mpr counted)⟩

end Wrapped

end Apply

end TicketFlow
