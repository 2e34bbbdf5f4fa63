import Mathlib.Order.Basic
import TicketFlow.Proofs.Arena.Grounded
import TicketFlow.Proofs.Data.Matching
import TicketFlow.Proofs.Timing.Waiting
import TicketFlow.Reduction.Reduce

namespace TicketFlow

/-! Terms as they are before and after more is known.

What is known early foreshadows what is known late: a term that waits stands for
any number of alternatives, every other term for one that is alike.  Blocks are
numbered apart in the two, and paired with each other.
-/

/-- A term that nothing stands in. -/
def Term.isAtomic : Term → Bool
  | .name _ | .str _ | .ticket _ => true
  | _ => false

/-- The same lambda, or the same prototype with paired bodies. -/
inductive Lambda.Alike (pairs : BlockId → BlockId → Prop) : Lambda → Lambda → Prop where
  | native {prototype : Prototype} {body other : BlockId} :
      pairs body other →
      Alike pairs (.native ⟨prototype, body⟩) (.native ⟨prototype, other⟩)
  | foreign (lambda : ForeignLambda) : Alike pairs (.foreign lambda) (.foreign lambda)

mutual

/-- The same form of term, with what is inside foreshadowing what is inside the other. -/
inductive Term.Alike (waits : Placeholder → Prop) (pairs : BlockId → BlockId → Prop) :
    Term → Term → Prop where
  | atom {term : Term} : term.isAtomic = true → Term.Alike waits pairs term term
  | lambda {lambda other : Lambda} :
      lambda.Alike pairs other → Term.Alike waits pairs (.lambda lambda) (.lambda other)
  | apply {task other : Compound} {bindings others : Bindings}
      {channel : Nat} {rest : Bool} :
      Compound.Foreshadows waits pairs task other →
      OrderedMap.Matches (Compound.Foreshadows waits pairs) bindings others →
      OrderedMap.Distinct bindings →
      Term.Alike waits pairs (.apply task bindings channel rest)
        (.apply other others channel rest)
  | cond {condition other : Compound} {prototype : Prototype}
      {channel : Nat} {thenBlock elseBlock thenOther elseOther : BlockId} :
      Compound.Foreshadows waits pairs condition other →
      pairs thenBlock thenOther → pairs elseBlock elseOther →
      Term.Alike waits pairs (.cond condition prototype channel thenBlock elseBlock)
          (.cond other prototype channel thenOther elseOther)
  | bare {bindings others : Bindings} :
      OrderedMap.Matches (Compound.Foreshadows waits pairs) bindings others →
      Term.Alike waits pairs (.curry none bindings) (.curry none others)
  | curry {task other : Compound} {bindings others : Bindings} :
      Compound.Foreshadows waits pairs task other →
      OrderedMap.Matches (Compound.Foreshadows waits pairs) bindings others →
      Term.Alike waits pairs (.curry (some task) bindings) (.curry (some other) others)

/-- A term that waits stands for any alternatives, another one for a term that is alike. -/
inductive Compound.Foreshadows (waits : Placeholder → Prop)
    (pairs : BlockId → BlockId → Prop) : Compound → Compound → Prop where
  | nil : Compound.Foreshadows waits pairs [] []
  | waiting {term : Term} {rest part late : Compound} :
      term.Awaits waits → Compound.Foreshadows waits pairs rest late →
      Compound.Foreshadows waits pairs (term :: rest) (part ++ late)
  | alike {term other : Term} {rest late : Compound} :
      Term.Alike waits pairs term other → Compound.Foreshadows waits pairs rest late →
      Compound.Foreshadows waits pairs (term :: rest) (other :: late)

end

/-- The same names, and arguments that foreshadow those under the names. -/
abbrev Bindings.Foreshadows (waits : Placeholder → Prop)
    (pairs : BlockId → BlockId → Prop) : Bindings → Bindings → Prop :=
  OrderedMap.Matches (Compound.Foreshadows waits pairs)

/-- One of the arguments waits. -/
def Bindings.Awaits (waits : Placeholder → Prop) (bindings : Bindings) : Prop :=
  ∃ binding ∈ bindings, Compound.Awaits waits binding.2

variable {waits : Placeholder → Prop} {pairs more : BlockId → BlockId → Prop}
  {term other : Term} {terms late : Compound} {bindings others : Bindings}

section Pairs

theorem Lambda.Alike.prototype {lambda other : Lambda}
    (alike : lambda.Alike pairs other) : other.prototype = lambda.prototype := by
  cases alike <;> rfl

theorem Lambda.Alike.mono {lambda other : Lambda} (within : pairs ≤ more)
    (alike : lambda.Alike pairs other) : lambda.Alike more other := by
  cases alike with
  | native bodies => exact .native (within _ _ bodies)
  | foreign lambda => exact .foreign lambda

variable {still : Placeholder → Prop}

mutual

theorem Term.Alike.imp (waiting : ∀ placeholder, waits placeholder → still placeholder)
    (within : pairs ≤ more) {term other : Term} :
    term.Alike waits pairs other → term.Alike still more other
  | .atom atomic => .atom atomic
  | .lambda lambdas => .lambda (lambdas.mono within)
  | .apply tasks arguments distinct => .apply (tasks.imp waiting within)
        (Bindings.Foreshadows.imp waiting within arguments) distinct
  | .cond conditions thenBlocks elseBlocks =>
      .cond (conditions.imp waiting within) (within _ _ thenBlocks)
        (within _ _ elseBlocks)
  | .bare arguments => .bare (Bindings.Foreshadows.imp waiting within arguments)
  | .curry tasks arguments =>
      .curry (tasks.imp waiting within) (Bindings.Foreshadows.imp waiting within arguments)
termination_by structural alike => alike

theorem Compound.Foreshadows.imp
    (waiting : ∀ placeholder, waits placeholder → still placeholder)
    (within : pairs ≤ more) {terms late : Compound} :
    terms.Foreshadows waits pairs late → terms.Foreshadows still more late
  | .nil => .nil
  | .waiting awaits rest => .waiting (awaits.mono waiting) (rest.imp waiting within)
  | .alike alike rest => .alike (alike.imp waiting within) (rest.imp waiting within)
termination_by structural foreshadows => foreshadows

/-- More may wait, and more blocks may be paired. -/
theorem Bindings.Foreshadows.imp
    (waiting : ∀ placeholder, waits placeholder → still placeholder)
    (within : pairs ≤ more) {bindings others : Bindings} :
    Bindings.Foreshadows waits pairs bindings others →
      Bindings.Foreshadows still more bindings others
  | .nil => .nil
  | .cons value rest =>
      .cons (value.imp waiting within) (Bindings.Foreshadows.imp waiting within rest)
termination_by structural matches_ => matches_

end

theorem Compound.Foreshadows.mono (foreshadows : terms.Foreshadows waits pairs late)
    (within : pairs ≤ more) : terms.Foreshadows waits more late :=
  foreshadows.imp (fun _ => id) within

theorem Bindings.Foreshadows.mono
    (foreshadows : Bindings.Foreshadows waits pairs bindings others)
    (within : pairs ≤ more) : Bindings.Foreshadows waits more bindings others :=
  Bindings.Foreshadows.imp (fun _ => id) within foreshadows

end Pairs

section Alternatives

theorem Cond.alike_toTerm {cond twin : Cond}
    (conditions : cond.condition.Foreshadows waits pairs twin.condition)
    (prototype : twin.prototype = cond.prototype) (channel : twin.channel = cond.channel)
    (thenBlocks : pairs cond.thenBlock twin.thenBlock)
    (elseBlocks : pairs cond.elseBlock twin.elseBlock) :
    cond.toTerm.Alike waits pairs twin.toTerm := by
  unfold toTerm
  rw [prototype, channel]
  exact .cond conditions thenBlocks elseBlocks

theorem Term.Alike.isNormal (alike : term.Alike waits pairs other) :
    other.isNormal = term.isNormal := by
  cases alike <;> rfl

/-- Of terms that are alike both are lambdas or neither. -/
theorem Term.Alike.lambda_cases (alike : term.Alike waits pairs other) :
    (∃ lambda twin, term = .lambda lambda ∧ other = .lambda twin ∧ lambda.Alike pairs twin) ∨
      (∀ lambda, term ≠ .lambda lambda) ∧ ∀ lambda, other ≠ .lambda lambda := by
  cases alike with
  | lambda lambdas => exact .inl ⟨_, _, rfl, rfl, lambdas⟩
  | atom atomic =>
      have unlike (lambda : Lambda) : term ≠ .lambda lambda :=
        fun same => by simp [same, isAtomic] at atomic
      exact .inr ⟨unlike, unlike⟩
  | _ => exact .inr ⟨fun _ same => (nomatch same), fun _ same => (nomatch same)⟩

theorem Term.Alike.single (alike : term.Alike waits pairs other) :
    Compound.Foreshadows waits pairs [term] [other] :=
  .alike alike .nil

theorem Term.Awaits.single (awaits : term.Awaits waits) (late : Compound) :
    Compound.Foreshadows waits pairs [term] late := by
  have whole : Compound.Foreshadows waits pairs [term] (late ++ []) :=
    .waiting awaits .nil
  rwa [List.append_nil] at whole

theorem Compound.Foreshadows.append {rest further : Compound}
    (first : terms.Foreshadows waits pairs late)
    (second : rest.Foreshadows waits pairs further) :
    (terms ++ rest).Foreshadows waits pairs (late ++ further) := by
  induction terms generalizing late with
  | nil =>
      cases first
      exact second
  | cons term terms ih =>
      cases first with
      | waiting awaits others =>
          rw [List.append_assoc]
          exact .waiting awaits (ih others)
      | alike alike others => exact .alike alike (ih others)

/-- Where nothing waits there is one term for each. -/
theorem Compound.Foreshadows.forall₂ (foreshadows : terms.Foreshadows waits pairs late)
    (known : ¬terms.Awaits waits) : List.Forall₂ (Term.Alike waits pairs) terms late := by
  induction terms generalizing late with
  | nil =>
      cases foreshadows
      exact .nil
  | cons term terms ih =>
      rw [Compound.awaits_cons, not_or] at known
      cases foreshadows with
      | waiting awaits _ => exact absurd awaits known.1
      | alike alike rest => exact .cons alike (ih rest known.2)

theorem Compound.foreshadows_of_forall₂
    (alike : List.Forall₂ (Term.Alike waits pairs) terms late) :
    terms.Foreshadows waits pairs late := by
  induction alike with
  | nil => exact .nil
  | cons here _ ih => exact .alike here ih

theorem Compound.isNormal_of_forall₂
    (alike : List.Forall₂ (Term.Alike waits pairs) terms late) :
    Compound.isNormal late = Compound.isNormal terms := by
  induction alike with
  | nil => rfl
  | cons here _ ih =>
      simp only [isNormal, List.all_cons] at ih ⊢
      rw [here.isNormal, ih]

/-- Values foreshadow as many values. -/
theorem Compound.Foreshadows.values (foreshadows : terms.Foreshadows waits pairs late)
    (normal : Compound.isNormal terms = true) :
    List.Forall₂ (Term.Alike waits pairs) terms late :=
  foreshadows.forall₂ fun awaits => awaits.not_normal normal

/-- What is not known to be values is not so late, or waits. -/
theorem Compound.Foreshadows.not_normal (foreshadows : terms.Foreshadows waits pairs late)
    (known : ¬terms.Awaits waits) (unknown : ¬Compound.isNormal terms = true) :
    ¬Compound.isNormal late = true := by
  rwa [isNormal_of_forall₂ (foreshadows.forall₂ known)]

/-- Nothing but the same string is like a string. -/
theorem Compound.eq_of_forall₂_strs
    (alike : List.Forall₂ (Term.Alike waits pairs) terms late)
    (strs : ∀ term ∈ late, term.isStr = true) : terms = late := by
  induction alike with
  | nil => rfl
  | cons here _ ih =>
      rw [List.forall_mem_cons] at strs
      rw [ih strs.2]
      cases here with
      | atom _ => rfl
      | _ => simp [Term.isStr] at strs

theorem Bindings.Awaits.not_normal (awaits : Bindings.Awaits waits bindings) :
    ¬(bindings.all fun binding => Compound.isNormal binding.2) = true := by
  intro normal
  obtain ⟨binding, among, waiting⟩ := awaits
  exact waiting.not_normal (List.all_eq_true.mp normal binding among)

theorem Bindings.Foreshadows.normal
    (foreshadows : Bindings.Foreshadows waits pairs bindings others)
    (normal : (bindings.all fun binding => Compound.isNormal binding.2) = true) :
    (others.all fun binding => Compound.isNormal binding.2) = true := by
  refine List.all_eq_true.mpr fun binding member => ?_
  obtain ⟨value, before, values⟩ := foreshadows.mem_right member
  have here := List.all_eq_true.mp normal _ before
  exact (Compound.isNormal_of_forall₂ (values.values here)).trans here

theorem Bindings.Foreshadows.not_normal
    (foreshadows : Bindings.Foreshadows waits pairs bindings others)
    (known : ¬Bindings.Awaits waits bindings)
    (unknown : ¬(bindings.all fun binding => Compound.isNormal binding.2) = true) :
    ¬(others.all fun binding => Compound.isNormal binding.2) = true := by
  simp only [List.all_eq_true, not_forall] at unknown ⊢
  obtain ⟨binding, member, here⟩ := unknown
  obtain ⟨late, there, values⟩ := foreshadows.mem_left member
  exact ⟨(binding.1, late), there,
    values.not_normal (fun awaits => known ⟨binding, member, awaits⟩) here⟩

theorem Bindings.Foreshadows.flatten
    (foreshadows : Bindings.Foreshadows waits pairs bindings others) :
    Compound.Foreshadows waits pairs bindings.values.flatten others.values.flatten := by
  induction foreshadows with
  | nil => exact .nil
  | cons here _ ih => exact here.append ih

theorem Bindings.eq_of_strs
    (foreshadows : Bindings.Foreshadows waits pairs bindings others)
    (known : ¬Bindings.Awaits waits bindings)
    (strs : ∀ binding ∈ others, ∀ term ∈ binding.2, term.isStr = true) :
    bindings = others := by
  induction foreshadows with
  | nil => rfl
  | @cons name value late rest restLate here _ ih =>
      rw [List.forall_mem_cons] at strs
      have values :=
        Compound.eq_of_forall₂_strs
          (here.forall₂ fun awaits => known ⟨_, List.mem_cons_self, awaits⟩) strs.1
      have remaining :=
        ih (fun ⟨binding, among, awaits⟩ =>
          known ⟨binding, List.mem_cons_of_mem _ among, awaits⟩) strs.2
      rw [values, remaining]

theorem Compound.foreshadows_strs (values : List String) :
    (Compound.strs values).Foreshadows waits pairs (Compound.strs values) := by
  induction values with
  | nil => exact .nil
  | cons value rest ih => exact .alike (.atom rfl) ih

/-- Conditions that are known alike choose paired branches. -/
theorem Reduction.decide?_foreshadows (cond condLate : Cond)
    {condition conditionLate : Compound}
    (alike : List.Forall₂ (Term.Alike waits pairs) condition conditionLate)
    (thenBlocks : pairs cond.thenBlock condLate.thenBlock)
    (elseBlocks : pairs cond.elseBlock condLate.elseBlock) :
    Option.Rel pairs (decide? cond condition) (decide? condLate conditionLate) := by
  have normal := Compound.isNormal_of_forall₂ alike
  cases alike with
  | nil => exact .some elseBlocks
  | cons _ _ =>
      simp only [decide?, List.isEmpty_cons, Bool.false_eq_true, if_false, normal]
      split
      · exact .some thenBlocks
      · exact .none

end Alternatives

section Reflexivity

/-- Every application and every curry binds each name once. -/
inductive Term.Keyed : Term → Prop where
  | atom {term : Term} : term.isAtomic = true → Keyed term
  | lambda (lambda : Lambda) : Keyed (.lambda lambda)
  | apply {task : Compound} {bindings : Bindings} {channel : Nat} {rest : Bool} :
      OrderedMap.Distinct bindings → (∀ term ∈ task, Keyed term) →
      (∀ binding ∈ bindings, ∀ term ∈ binding.2, Keyed term) →
      Keyed (.apply task bindings channel rest)
  | cond {condition : Compound} {prototype : Prototype}
      {channel : Nat} {thenBlock elseBlock : BlockId} :
      (∀ term ∈ condition, Keyed term) →
      Keyed (.cond condition prototype channel thenBlock elseBlock)
  | bare {bindings : Bindings} :
      OrderedMap.Distinct bindings →
      (∀ binding ∈ bindings, ∀ term ∈ binding.2, Keyed term) →
      Keyed (.curry none bindings)
  | curry {task : Compound} {bindings : Bindings} :
      OrderedMap.Distinct bindings → (∀ term ∈ task, Keyed term) →
      (∀ binding ∈ bindings, ∀ term ∈ binding.2, Keyed term) →
      Keyed (.curry (some task) bindings)

theorem Compound.foreshadows_refl (alike : ∀ term ∈ terms, term.Alike waits pairs term) :
    terms.Foreshadows waits pairs terms :=
  foreshadows_of_forall₂ (List.forall₂_same.mpr alike)

theorem Bindings.foreshadows_refl
    (alike : ∀ term, BoundIn bindings term → term.Alike waits pairs term) :
    Bindings.Foreshadows waits pairs bindings bindings :=
  OrderedMap.matches_refl fun entry member =>
    Compound.foreshadows_refl fun term inside => alike term ⟨entry, member, inside⟩

/-- With the blocks that it names paired with themselves, a term is like itself. -/
theorem Term.Keyed.alike (keyed : term.Keyed)
    (paired : ∀ block ∈ term.blocks, pairs block block) :
    term.Alike waits pairs term := by
  induction keyed with
  | atom atomic => exact .atom atomic
  | lambda lambda =>
      cases lambda with
      | native native => exact .lambda (.native (paired native.body List.mem_cons_self))
      | foreign foreign => exact .lambda (.foreign foreign)
  | apply distinct _ _ tasks arguments =>
      obtain ⟨inTask, inBindings⟩ := List.forall_mem_append.mp paired
      refine .apply (Compound.foreshadows_refl fun term inside => tasks term inside
        fun block named => ?_) (Bindings.foreshadows_refl fun term bound => ?_) distinct
      · exact inTask block (mem_blocksOfAll.mpr ⟨term, inside, named⟩)
      · obtain ⟨entry, member, inside⟩ := bound
        exact arguments entry member term inside fun block named =>
          inBindings block (mem_blocksOfBindings.mpr ⟨term, ⟨entry, member, inside⟩, named⟩)
  | cond _ conditions =>
      obtain ⟨inCondition, branches⟩ := List.forall_mem_append.mp paired
      refine .cond (Compound.foreshadows_refl fun term inside =>
        conditions term inside fun block named => ?_) (branches _ List.mem_cons_self)
        (branches _ (List.mem_cons_of_mem _ List.mem_cons_self))
      exact inCondition block (mem_blocksOfAll.mpr ⟨term, inside, named⟩)
  | bare distinct _ arguments =>
      refine .bare (Bindings.foreshadows_refl fun term bound => ?_)
      obtain ⟨entry, member, inside⟩ := bound
      exact arguments entry member term inside fun block named =>
        paired block (mem_blocksOfBindings.mpr ⟨term, ⟨entry, member, inside⟩, named⟩)
  | curry distinct _ _ tasks arguments =>
      obtain ⟨inTask, inBindings⟩ := List.forall_mem_append.mp paired
      refine .curry
        (Compound.foreshadows_refl fun term inside => tasks term inside fun block named => ?_)
        (Bindings.foreshadows_refl fun term bound => ?_)
      · exact inTask block (mem_blocksOfAll.mpr ⟨term, inside, named⟩)
      · obtain ⟨entry, member, inside⟩ := bound
        exact arguments entry member term inside fun block named =>
          inBindings block (mem_blocksOfBindings.mpr ⟨term, ⟨entry, member, inside⟩, named⟩)

end Reflexivity

end TicketFlow
