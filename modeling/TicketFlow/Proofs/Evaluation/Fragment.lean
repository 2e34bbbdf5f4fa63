import TicketFlow.Arena.Placeholders
import TicketFlow.Proofs.Evaluation.Basic

namespace TicketFlow

/-! Terms that need no block but the root.

A plain term is built from strings, names, foreign lambdas, tickets and
applications, and no task in it comes to a correlated lambda next to another
alternative once its names are replaced by what they are bound to.
-/

namespace Term

mutual

/-- Every name in a term, in reading order. -/
def names : Term → List String
  | .name used => [used]
  | .str _ | .lambda _ | .ticket _ => []
  | .apply task bindings _ _ => namesOfAll task ++ namesOfBindings bindings
  | .cond condition _ _ _ _ => namesOfAll condition
  | .curry none bindings => namesOfBindings bindings
  | .curry (some task) bindings => namesOfAll task ++ namesOfBindings bindings
termination_by structural term => term

def namesOfAll : List Term → List String
  | [] => []
  | term :: rest => term.names ++ namesOfAll rest
termination_by structural terms => terms

def namesOfBindings : List (String × List Term) → List String
  | [] => []
  | (_, value) :: rest => namesOfAll value ++ namesOfBindings rest
termination_by structural bindings => bindings

end

theorem mem_namesOfAll_iff {name : String} {terms : List Term} :
    name ∈ namesOfAll terms ↔ ∃ term ∈ terms, name ∈ term.names := by
  induction terms with
  | nil => simp [namesOfAll]
  | cons term rest ih => simp [namesOfAll, ih]

theorem mem_namesOfBindings_iff {name : String} {bindings : Bindings} :
    name ∈ namesOfBindings bindings ↔
      ∃ binding ∈ bindings, name ∈ namesOfAll binding.2 := by
  induction bindings with
  | nil => simp [namesOfBindings]
  | cons binding rest ih => simp [namesOfBindings, ih]

end Term

section Names

variable (lookup : String → Option Compound)

/-- What the outer name is bound to has the inner one in it. -/
def Mentions (outer inner : String) : Prop :=
  ∃ bound, lookup outer = some bound ∧ inner ∈ Term.namesOfAll bound

/-- No name leads back to itself. -/
def Acyclic : Prop :=
  ∀ name, ¬Relation.TransGen (Mentions lookup) name name

/-- The alternatives of a compound once every bound name is replaced by what it stands for. -/
inductive Resolved : Compound → Compound → Prop where
  | nil : Resolved [] []
  | name {name : String} {bound head rest tail : Compound} :
      lookup name = some bound → Resolved bound head → Resolved rest tail →
      Resolved (.name name :: rest) (head ++ tail)
  | other {term : Term} {rest tail : Compound} :
      (∀ name, term = .name name → lookup name = none) → Resolved rest tail →
      Resolved (term :: rest) (term :: tail)

/-- A correlated lambda is the only alternative. -/
def Separate (alternatives : Compound) : Prop :=
  ∀ lambda, .lambda lambda ∈ alternatives → lambda.prototype.correlated = true →
    alternatives = [.lambda lambda]

namespace Term

mutual

def IsPlain : Term → Prop
  | .name _ | .str _ | .ticket _ | .lambda (.foreign _) => True
  | .apply task bindings _ _ =>
      AreAllPlain task ∧ AreBindingsPlain bindings ∧
        ∀ alternatives, Resolved lookup task alternatives → Separate alternatives
  | .lambda (.native _) | .cond .. | .curry .. => False
termination_by structural term => term

def AreAllPlain : List Term → Prop
  | [] => True
  | term :: rest => term.IsPlain ∧ AreAllPlain rest
termination_by structural terms => terms

def AreBindingsPlain : List (String × List Term) → Prop
  | [] => True
  | (_, value) :: rest => AreAllPlain value ∧ AreBindingsPlain rest
termination_by structural bindings => bindings

end

variable {lookup}

theorem foreign_of_isPlain {value : Lambda} (plain : (Term.lambda value).IsPlain lookup) :
    ∃ task, value = .foreign task := by
  cases value with
  | native task => exact plain.elim
  | foreign task => exact ⟨task, rfl⟩

theorem areAllPlain_iff {terms : List Term} :
    AreAllPlain lookup terms ↔ ∀ term ∈ terms, term.IsPlain lookup := by
  induction terms with
  | nil => simp [AreAllPlain]
  | cons term rest ih => simp [AreAllPlain, ih]

theorem areBindingsPlain_iff {bindings : Bindings} :
    AreBindingsPlain lookup bindings ↔
      ∀ term, BoundIn bindings term → term.IsPlain lookup := by
  induction bindings with
  | nil => simp [AreBindingsPlain, boundIn_nil]
  | cons binding rest ih =>
      simp only [AreBindingsPlain, ih, areAllPlain_iff, boundIn_cons, or_imp, forall_and]

end Term

/-- What names are bound to is plain, and no name leads back to itself. -/
structure PlainScope : Prop where
  plain : ∀ {name bound}, lookup name = some bound → Term.AreAllPlain lookup bound
  acyclic : Acyclic lookup

end Names

variable {lookup : String → Option Compound}

theorem Resolved.append {first second head tail : Compound}
    (left : Resolved lookup first head) (right : Resolved lookup second tail) :
    Resolved lookup (first ++ second) (head ++ tail) := by
  induction left with
  | nil => exact right
  | name found bound _ _ ih => simpa [List.append_assoc] using .name found bound ih
  | other unbound _ ih => exact .other unbound ih

/-- Without bound names there is nothing to replace. -/
theorem Resolved.eq_of_unbound {compound alternatives : Compound}
    (resolved : Resolved lookup compound alternatives)
    (unbound : ∀ name, .name name ∈ compound → lookup name = none) :
    alternatives = compound := by
  induction resolved with
  | nil => rfl
  | name found _ _ _ _ => simp [unbound _ List.mem_cons_self] at found
  | other _ _ ih =>
      rw [ih fun name member => unbound name (List.mem_cons_of_mem _ member)]

section Placeholders

/-- No placeholder stands in the term, the outputs of branches apart. -/
def Term.IsSettled (term : Term) : Prop :=
  term.holdsPlaceholder (fun _ _ => false) = false

theorem Term.anyHoldsPlaceholder_eq_false_iff
    {output : BlockId → String → Bool} {terms : List Term} :
    anyHoldsPlaceholder output terms = false ↔
      ∀ term ∈ terms, term.holdsPlaceholder output = false := by
  induction terms with
  | nil => simp [anyHoldsPlaceholder]
  | cons term rest ih => simp [anyHoldsPlaceholder, ih]

theorem Term.bindingsHoldPlaceholder_eq_false_iff {output : BlockId → String → Bool}
    {bindings : Bindings} : bindingsHoldPlaceholder output bindings = false ↔
      ∀ term, BoundIn bindings term → term.holdsPlaceholder output = false := by
  induction bindings with
  | nil => simp [bindingsHoldPlaceholder, boundIn_nil]
  | cons binding rest ih =>
      simp only [bindingsHoldPlaceholder, Bool.or_eq_false_iff, ih,
        anyHoldsPlaceholder_eq_false_iff, boundIn_cons, or_imp, forall_and]

mutual

theorem Term.isSettled_of_holdsPlaceholder {output : BlockId → String → Bool} :
    ∀ term : Term, term.holdsPlaceholder output = false → term.IsSettled
  | .name _, clear | .str _, clear | .lambda _, clear | .ticket _, clear => clear
  | .apply task bindings _ _, clear => by
      simp only [holdsPlaceholder, Bool.or_eq_false_iff] at clear
      simp [IsSettled, holdsPlaceholder, areSettled_of_anyHoldsPlaceholder task clear.1,
        areBindingsSettled_of_bindingsHoldPlaceholder bindings clear.2]
  | .cond condition prototype _ _ _, clear => by
      simp only [holdsPlaceholder, Bool.or_eq_false_iff] at clear
      simp [IsSettled, holdsPlaceholder,
        areSettled_of_anyHoldsPlaceholder condition clear.1.1]
  | .curry Option.none bindings, clear =>
      areBindingsSettled_of_bindingsHoldPlaceholder bindings clear
  | .curry (some task) bindings, clear => by
      simp only [holdsPlaceholder, Bool.or_eq_false_iff] at clear
      simp [IsSettled, holdsPlaceholder, areSettled_of_anyHoldsPlaceholder task clear.1,
        areBindingsSettled_of_bindingsHoldPlaceholder bindings clear.2]
termination_by structural term => term

theorem Term.areSettled_of_anyHoldsPlaceholder {output : BlockId → String → Bool} :
    ∀ terms : List Term, anyHoldsPlaceholder output terms = false →
      anyHoldsPlaceholder (fun _ _ => false) terms = false
  | [], clear => clear
  | term :: rest, clear => by
      simp only [anyHoldsPlaceholder, Bool.or_eq_false_iff] at clear ⊢
      exact ⟨term.isSettled_of_holdsPlaceholder clear.1,
        areSettled_of_anyHoldsPlaceholder rest clear.2⟩
termination_by structural terms => terms

theorem Term.areBindingsSettled_of_bindingsHoldPlaceholder
    {output : BlockId → String → Bool} :
    ∀ bindings : List (String × List Term), bindingsHoldPlaceholder output bindings = false →
      bindingsHoldPlaceholder (fun _ _ => false) bindings = false
  | [], clear => clear
  | (_, value) :: rest, clear => by
      simp only [bindingsHoldPlaceholder, Bool.or_eq_false_iff] at clear ⊢
      exact ⟨areSettled_of_anyHoldsPlaceholder value clear.1,
        areBindingsSettled_of_bindingsHoldPlaceholder rest clear.2⟩
termination_by structural bindings => bindings

end

theorem Apply.isSettled_iff {apply : Apply} :
    apply.toTerm.IsSettled ↔
      (∀ term ∈ apply.task, term.IsSettled) ∧
        ∀ term, BoundIn apply.bindings term → term.IsSettled := by
  rw [Term.IsSettled, Apply.toTerm, Term.holdsPlaceholder, Bool.or_eq_false_iff,
    Term.anyHoldsPlaceholder_eq_false_iff, Term.bindingsHoldPlaceholder_eq_false_iff]
  rfl

end Placeholders

end TicketFlow
