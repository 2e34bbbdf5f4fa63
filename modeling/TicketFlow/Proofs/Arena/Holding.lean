import TicketFlow.Proofs.Arena.Placeholders
import TicketFlow.Proofs.Arena.Retention

namespace TicketFlow

/-! Which placeholders the search finds, and which of them a pass passes by.

The search finds a placeholder exactly if there is a way to one.  It also enters
the curries of several tasks, which a pass leaves as they are: what it finds is
exposed to a pass, or hidden in such a curry.
-/

/-- The search for placeholders may find this one in the compound. -/
def Arena.Holds (arena : Arena) (placeholder : Placeholder) (terms : Compound) : Prop :=
  ∃ term ∈ terms, term.Shows arena.output? (fun _ => True) placeholder

/-- A way from the term to a curry of several tasks that has the placeholder in one of
them, or in one of its bindings. -/
inductive Term.Hides (output : BlockId → String → Option Compound)
    (placeholder : Placeholder) : Term → Prop where
  | several {task : Compound} {bindings : Bindings} {term : Term} :
      2 ≤ task.length → term ∈ task ∨ BoundIn bindings term →
      term.Shows output (fun _ => True) placeholder →
      Hides output placeholder (.curry (some task) bindings)
  | task {task : Compound} {bindings : Bindings} {channel : Nat} {rest : Bool}
      {term : Term} : term ∈ task → Hides output placeholder term →
      Hides output placeholder (.apply task bindings channel rest)
  | argument {task : Compound} {bindings : Bindings} {channel : Nat} {rest : Bool}
      {term : Term} : BoundIn bindings term → Hides output placeholder term →
      Hides output placeholder (.apply task bindings channel rest)
  | condition {condition : Compound} {prototype : Prototype} {channel : Nat}
      {thenBlock elseBlock : BlockId} {term : Term} :
      term ∈ condition → Hides output placeholder term →
      Hides output placeholder (.cond condition prototype channel thenBlock elseBlock)
  | output {condition : Compound} {prototype : Prototype} {channel : Nat}
      {thenBlock elseBlock block : BlockId} {name : String} {value : Compound}
      {term : Term} : name ∈ prototype.outputs → block = thenBlock ∨ block = elseBlock →
      output block name = some value → term ∈ value → Hides output placeholder term →
      Hides output placeholder (.cond condition prototype channel thenBlock elseBlock)
  | curryTask {task : Compound} {bindings : Bindings} {term : Term} :
      term ∈ task → Hides output placeholder term →
      Hides output placeholder (.curry (some task) bindings)
  | curryBinding {task : Option Compound} {bindings : Bindings} {term : Term} :
      BoundIn bindings term → Hides output placeholder term →
      Hides output placeholder (.curry task bindings)

/-- The placeholder stands in a curry of several tasks that the term leads to. -/
def Arena.Hides (arena : Arena) (placeholder : Placeholder) (term : Term) : Prop :=
  term.Hides arena.output? placeholder

section Ways

variable {arena : Arena} {placeholder : Placeholder} {term : Term}

theorem Arena.Exposes.shows_ (exposes : arena.Exposes placeholder term) :
    term.Shows arena.output? (fun _ => True) placeholder := by
  unfold Exposes at exposes
  induction exposes with
  | ticket => exact .ticket
  | task inside _ ih => exact .task inside ih
  | argument bound _ ih => exact .argument bound ih
  | condition inside _ ih => exact .condition inside ih
  | output declared branch given inside _ ih =>
      exact .output declared branch given inside ih
  | curryTask _ inside _ ih => exact .curryTask trivial inside ih
  | curryBinding _ bound _ ih => exact .curryBinding (fun _ _ => trivial) bound ih

theorem Arena.Hides.shows_ (hides : arena.Hides placeholder term) :
    term.Shows arena.output? (fun _ => True) placeholder := by
  unfold Hides at hides
  induction hides with
  | several _ among further =>
      rcases among with inside | bound
      · exact .curryTask trivial inside further
      · exact .curryBinding (fun _ _ => trivial) bound further
  | task inside _ ih => exact .task inside ih
  | argument bound _ ih => exact .argument bound ih
  | condition inside _ ih => exact .condition inside ih
  | output declared branch given inside _ ih =>
      exact .output declared branch given inside ih
  | curryTask inside _ ih => exact .curryTask trivial inside ih
  | curryBinding bound _ ih => exact .curryBinding (fun _ _ => trivial) bound ih

/-- A pass meets what the search may find, unless that stands in a curry of several tasks. -/
theorem Term.Shows.exposes_or_hides
    (shows_ : term.Shows arena.output? (fun _ => True) placeholder) :
    arena.Exposes placeholder term ∨ arena.Hides placeholder term := by
  unfold Arena.Exposes Arena.Hides
  induction shows_ with
  | ticket => exact .inl .ticket
  | task inside _ ih => exact ih.imp (.task inside) (.task inside)
  | argument bound _ ih => exact ih.imp (.argument bound) (.argument bound)
  | condition inside _ ih => exact ih.imp (.condition inside) (.condition inside)
  | output declared branch given inside _ ih =>
      exact ih.imp (.output declared branch given inside)
        (.output declared branch given inside)
  | @curryTask task _ _ _ inside further ih =>
      obtain single | several := Nat.lt_or_ge task.length 2
      · exact ih.imp (.curryTask single inside) (.curryTask inside)
      · exact .inr (.several several (.inl inside) further)
  | @curryBinding task _ _ _ bound further ih =>
      cases task with
      | none =>
          exact ih.imp (.curryBinding (fun _ same => nomatch same) bound)
            (.curryBinding bound)
      | some task =>
          obtain single | several := Nat.lt_or_ge task.length 2
          · refine ih.imp (.curryBinding (fun given same => ?_) bound) (.curryBinding bound)
            exact Option.some.inj same ▸ single
          · exact .inr (.several several (.inr bound) further)

/-- What the search finds, a pass meets, or it is hidden from the pass. -/
theorem Term.shows_iff : term.Shows arena.output? (fun _ => True) placeholder ↔
    arena.Exposes placeholder term ∨ arena.Hides placeholder term :=
  ⟨Term.Shows.exposes_or_hides,
    fun either => either.elim Arena.Exposes.shows_ Arena.Hides.shows_⟩

end Ways

section Search

variable {arena : Arena} {output : BlockId → String → Bool} {placeholder : Placeholder}

theorem Term.anyHoldsPlaceholder_iff {terms : Compound} :
    anyHoldsPlaceholder output terms = true ↔
      ∃ term ∈ terms, term.holdsPlaceholder output = true := by
  induction terms with
  | nil => simp [anyHoldsPlaceholder]
  | cons term rest ih => simp [anyHoldsPlaceholder, ih]

theorem Term.bindingsHoldPlaceholder_iff {bindings : Bindings} :
    bindingsHoldPlaceholder output bindings = true ↔
      ∃ term, BoundIn bindings term ∧ term.holdsPlaceholder output = true := by
  induction bindings with
  | nil => simp [bindingsHoldPlaceholder, boundIn_nil]
  | cons binding rest ih =>
      simp only [bindingsHoldPlaceholder, Bool.or_eq_true, ih, anyHoldsPlaceholder_iff,
        boundIn_cons, or_and_right, exists_or]

/-- Of the outputs of blocks, only those are reported that hold a placeholder. -/
def Arena.Reports (arena : Arena) (output : BlockId → String → Bool) : Prop :=
  ∀ {block name}, output block name = true →
    ∃ value, arena.output? block name = some value ∧
      ∃ placeholder, arena.Holds placeholder value

mutual

theorem Term.shows_of_holdsPlaceholder (reports : arena.Reports output) :
    ∀ term : Term, term.holdsPlaceholder output = true →
      ∃ placeholder, term.Shows arena.output? (fun _ => True) placeholder
  | .name _, holds | .str _, holds | .lambda _, holds =>
      by simp [holdsPlaceholder] at holds
  | .ticket placeholder, _ => ⟨placeholder, .ticket⟩
  | .apply task bindings _ _, holds => by
      simp only [holdsPlaceholder, Bool.or_eq_true] at holds
      rcases holds with holds | holds
      · obtain ⟨placeholder, term, inside, shows_⟩ :=
          shows_of_anyHoldsPlaceholder reports task holds
        exact ⟨placeholder, .task inside shows_⟩
      · obtain ⟨placeholder, term, bound, shows_⟩ :=
          shows_of_bindingsHoldPlaceholder reports bindings holds
        exact ⟨placeholder, .argument bound shows_⟩
  | .cond condition prototype channel thenBlock elseBlock, holds => by
      have branch {block : BlockId} (among : block = thenBlock ∨ block = elseBlock)
          (found : prototype.outputs.any (output block) = true) :
          ∃ placeholder, Shows arena.output? (fun _ => True) placeholder
            (.cond condition prototype channel thenBlock elseBlock) := by
        obtain ⟨name, declared, holds⟩ := List.any_eq_true.mp found
        obtain ⟨value, given, placeholder, term, inside, shows_⟩ := reports holds
        exact ⟨placeholder, .output declared among given inside shows_⟩
      simp only [holdsPlaceholder, Bool.or_eq_true] at holds
      rcases holds with (holds | holds) | holds
      · obtain ⟨placeholder, term, inside, shows_⟩ :=
          shows_of_anyHoldsPlaceholder reports condition holds
        exact ⟨placeholder, .condition inside shows_⟩
      · exact branch (.inl rfl) holds
      · exact branch (.inr rfl) holds
  | .curry none bindings, holds => by
      obtain ⟨placeholder, term, bound, shows_⟩ :=
        shows_of_bindingsHoldPlaceholder reports bindings holds
      exact ⟨placeholder, .curryBinding (fun _ _ => trivial) bound shows_⟩
  | .curry (some task) bindings, holds => by
      simp only [holdsPlaceholder, Bool.or_eq_true] at holds
      rcases holds with holds | holds
      · obtain ⟨placeholder, term, inside, shows_⟩ :=
          shows_of_anyHoldsPlaceholder reports task holds
        exact ⟨placeholder, .curryTask trivial inside shows_⟩
      · obtain ⟨placeholder, term, bound, shows_⟩ :=
          shows_of_bindingsHoldPlaceholder reports bindings holds
        exact ⟨placeholder, .curryBinding (fun _ _ => trivial) bound shows_⟩
termination_by structural term => term

theorem Term.shows_of_anyHoldsPlaceholder (reports : arena.Reports output) :
    ∀ terms : List Term, anyHoldsPlaceholder output terms = true →
      ∃ placeholder, arena.Holds placeholder terms
  | [], holds => by simp [anyHoldsPlaceholder] at holds
  | term :: rest, holds => by
      simp only [anyHoldsPlaceholder, Bool.or_eq_true] at holds
      rcases holds with holds | holds
      · obtain ⟨placeholder, shows_⟩ := shows_of_holdsPlaceholder reports term holds
        exact ⟨placeholder, term, List.mem_cons_self, shows_⟩
      · obtain ⟨placeholder, other, inside, shows_⟩ :=
          shows_of_anyHoldsPlaceholder reports rest holds
        exact ⟨placeholder, other, List.mem_cons_of_mem _ inside, shows_⟩
termination_by structural terms => terms

theorem Term.shows_of_bindingsHoldPlaceholder (reports : arena.Reports output) :
    ∀ bindings : List (String × List Term),
      bindingsHoldPlaceholder output bindings = true → ∃ placeholder term,
      BoundIn bindings term ∧ term.Shows arena.output? (fun _ => True) placeholder
  | [], holds => by simp [bindingsHoldPlaceholder] at holds
  | (_, value) :: rest, holds => by
      simp only [bindingsHoldPlaceholder, Bool.or_eq_true] at holds
      rcases holds with holds | holds
      · obtain ⟨placeholder, term, inside, shows_⟩ :=
          shows_of_anyHoldsPlaceholder reports value holds
        exact ⟨placeholder, term, boundIn_cons.mpr (.inl inside), shows_⟩
      · obtain ⟨placeholder, term, bound, shows_⟩ :=
          shows_of_bindingsHoldPlaceholder reports rest holds
        exact ⟨placeholder, term, boundIn_cons.mpr (.inr bound), shows_⟩
termination_by structural bindings => bindings

end

/-- A way to a placeholder is found in as many steps as it passes branches. -/
theorem Term.Shows.holdsPlaceholder {term : Term}
    (shows_ : term.Shows arena.output? (fun _ => True) placeholder) :
    ∃ steps, term.holdsPlaceholder (arena.outputHoldsPlaceholder steps) = true := by
  induction shows_ with
  | ticket => exact ⟨0, rfl⟩
  | task inside _ ih =>
      obtain ⟨steps, holds⟩ := ih
      refine ⟨steps, ?_⟩
      rw [Term.holdsPlaceholder, Bool.or_eq_true]
      exact .inl (Term.anyHoldsPlaceholder_iff.mpr ⟨_, inside, holds⟩)
  | argument bound _ ih =>
      obtain ⟨steps, holds⟩ := ih
      refine ⟨steps, ?_⟩
      rw [Term.holdsPlaceholder, Bool.or_eq_true]
      exact .inr (Term.bindingsHoldPlaceholder_iff.mpr ⟨_, bound, holds⟩)
  | condition inside _ ih =>
      obtain ⟨steps, holds⟩ := ih
      refine ⟨steps, ?_⟩
      rw [Term.holdsPlaceholder, Bool.or_eq_true, Bool.or_eq_true]
      exact .inl (.inl (Term.anyHoldsPlaceholder_iff.mpr ⟨_, inside, holds⟩))
  | @output _ _ _ thenBlock elseBlock block name value _ declared branch given inside _ ih =>
      obtain ⟨steps, holds⟩ := ih
      have found : arena.outputHoldsPlaceholder (steps + 1) block name = true := by
        rw [Arena.outputHoldsPlaceholder_succ, given]
        exact Term.anyHoldsPlaceholder_iff.mpr ⟨_, inside, holds⟩
      refine ⟨steps + 1, ?_⟩
      simp only [Term.holdsPlaceholder, Bool.or_eq_true, List.any_eq_true]
      rcases branch with rfl | rfl
      · exact .inl (.inr ⟨name, declared, found⟩)
      · exact .inr ⟨name, declared, found⟩
  | curryTask _ inside _ ih =>
      obtain ⟨steps, holds⟩ := ih
      refine ⟨steps, ?_⟩
      rw [Term.holdsPlaceholder, Bool.or_eq_true]
      exact .inl (Term.anyHoldsPlaceholder_iff.mpr ⟨_, inside, holds⟩)
  | @curryBinding task _ _ _ bound _ ih =>
      obtain ⟨steps, holds⟩ := ih
      have within := Term.bindingsHoldPlaceholder_iff.mpr ⟨_, bound, holds⟩
      refine ⟨steps, ?_⟩
      cases task with
      | none => exact within
      | some task =>
          rw [Term.holdsPlaceholder, Bool.or_eq_true]
          exact .inr within

theorem Arena.reports_outputHoldsPlaceholder (steps : Nat) :
    arena.Reports (arena.outputHoldsPlaceholder steps) := by
  intro block name holds
  induction steps generalizing block name with
  | zero => simp [outputHoldsPlaceholder] at holds
  | succ steps ih =>
      rw [outputHoldsPlaceholder_succ] at holds
      cases given : arena.output? block name with
      | none => simp [given] at holds
      | some value =>
          rw [given] at holds
          exact ⟨value, rfl, Term.shows_of_anyHoldsPlaceholder ih value holds⟩

/-- The search finds a placeholder exactly if there is one to find. -/
theorem Arena.holdsPlaceholder_iff {terms : Compound} :
    arena.holdsPlaceholder terms = true ↔
      ∃ placeholder, arena.Holds placeholder terms := by
  constructor
  · exact Term.shows_of_anyHoldsPlaceholder (reports_outputHoldsPlaceholder _) terms
  · rintro ⟨placeholder, term, inside, shows_⟩
    obtain ⟨steps, holds⟩ := shows_.holdsPlaceholder
    have grows : Monotone arena.holders :=
      monotone_nat_of_le_succ fun _ => holders_subset_succ
    rw [holdsPlaceholder_of_le (Nat.le_max_left _ steps)]
    refine Term.anyHoldsPlaceholder_iff.mpr
      ⟨term, inside, term.holdsPlaceholder_mono (fun block _ name found => ?_) holds⟩
    exact mem_holders.mp (grows (Nat.le_max_right _ _) (mem_holders.mpr found))

end Search

end TicketFlow
