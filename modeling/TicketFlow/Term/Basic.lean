import TicketFlow.Data.OrderedMap
import TicketFlow.Digest.Basic
import TicketFlow.Term.Prototype

namespace TicketFlow

/-! Terms of the workflow language.

A compound expression is a sequence of alternatives, each a term; it denotes
none, one or many values.  Terms nest through the tasks and bindings of
applications and curries and through the conditions of conditionals.  The
branches of a conditional and the body of a native lambda are not part of the
term: they are blocks of an arena, named by their number.
-/

structure BlockId where
  index : Nat
deriving DecidableEq, Repr, Inhabited

/-- Blocks have numbers of 32 bits. -/
def BlockId.limit : Nat := UInt32.size

abbrev TicketId := Digest

/-- A task written in the language itself; its body block binds the outputs. -/
structure NativeLambda where
  prototype : Prototype
  body : BlockId
deriving DecidableEq, Repr

/-- A task run outside the language; its script means nothing to the language. -/
structure ForeignLambda where
  name : String
  prototype : Prototype
  lang : String
  script : String
deriving DecidableEq, Repr

inductive Lambda where
  | native (lambda : NativeLambda)
  | foreign (lambda : ForeignLambda)
deriving DecidableEq, Repr

def Lambda.prototype : Lambda → Prototype
  | .native lambda => lambda.prototype
  | .foreign lambda => lambda.prototype

/-- Stands for one output of a ticket that has not been resolved yet. -/
structure Placeholder where
  ticket : TicketId
  channel : Nat
  /-- The name of the output, for display only. -/
  output : String
deriving DecidableEq, Repr

inductive Term where
  | name (name : String)
  | str (value : String)
  /-- `rest`: excess bindings still wait for the rest parameter of the task. -/
  | apply (task : List Term) (bindings : List (String × List Term))
      (channel : Nat) (rest : Bool)
  | lambda (lambda : Lambda)
  | cond (condition : List Term) (prototype : Prototype) (channel : Nat)
      (thenBlock elseBlock : BlockId)
  | curry (task : Option (List Term)) (bindings : List (String × List Term))
  | ticket (placeholder : Placeholder)
deriving Repr, Inhabited

abbrev Compound := List Term

/-- Arguments by parameter name, in binding order. -/
abbrev Bindings := OrderedMap String Compound

structure Apply where
  task : Compound
  bindings : Bindings
  channel : Nat
  rest : Bool := false
deriving Repr, Inhabited

def Apply.toTerm (apply : Apply) : Term :=
  .apply apply.task apply.bindings apply.channel apply.rest

structure Cond where
  condition : Compound
  prototype : Prototype
  channel : Nat
  thenBlock : BlockId
  elseBlock : BlockId
deriving Repr

def Cond.toTerm (cond : Cond) : Term :=
  .cond cond.condition cond.prototype cond.channel cond.thenBlock cond.elseBlock

structure Curry where
  task : Option Compound
  bindings : Bindings
deriving Repr

def Curry.toTerm (curry : Curry) : Term :=
  .curry curry.task curry.bindings

namespace Term

mutual

/-- Whether two terms are the same. -/
def equals : Term → Term → Bool
  | .name left, .name right | .str left, .str right => left == right
  | .apply task bindings channel rest, .apply other others channel' rest' =>
      equalsAll task other && equalsBindings bindings others && channel == channel' &&
        rest == rest'
  | .lambda left, .lambda right => left == right
  | .cond condition prototype channel thenBlock elseBlock,
    .cond other prototype' channel' thenBlock' elseBlock' =>
      equalsAll condition other && prototype == prototype' && channel == channel' &&
        thenBlock == thenBlock' && elseBlock == elseBlock'
  | .curry none bindings, .curry none others => equalsBindings bindings others
  | .curry (some task) bindings, .curry (some other) others =>
      equalsAll task other && equalsBindings bindings others
  | .ticket left, .ticket right => left == right
  | _, _ => false

def equalsAll : List Term → List Term → Bool
  | [], [] => true
  | term :: rest, other :: others => equals term other && equalsAll rest others
  | _, _ => false

def equalsBindings : List (String × List Term) → List (String × List Term) → Bool
  | [], [] => true
  | (key, value) :: rest, (other, value') :: others =>
      key == other && equalsAll value value' && equalsBindings rest others
  | _, _ => false

end

mutual

theorem equals_iff : ∀ left right : Term, left.equals right = true ↔ left = right
  | .name _, right | .str _, right | .lambda _, right | .ticket _, right => by
      cases right <;> simp [equals]
  | .apply task bindings _ _, right => by
      cases right <;> simp [equals, equalsAll_iff task,
        equalsBindings_iff bindings, and_assoc]
  | .cond condition _ _ _ _, right => by
      cases right <;> simp [equals, equalsAll_iff condition, and_assoc]
  | .curry none bindings, right => by
      rcases right with _ | _ | _ | _ | _ | ⟨_ | _, _⟩ | _ <;> simp [equals,
          equalsBindings_iff bindings]
  | .curry (some task) bindings, right => by
      rcases right with _ | _ | _ | _ | _ | ⟨_ | _, _⟩ | _ <;>
        simp [equals, equalsAll_iff task, equalsBindings_iff bindings]

theorem equalsAll_iff :
    ∀ left right : List Term, equalsAll left right = true ↔ left = right
  | [], right => by cases right <;> simp [equalsAll]
  | term :: rest, right => by
      cases right <;> simp [equalsAll, equals_iff term, equalsAll_iff rest]

theorem equalsBindings_iff : ∀ left right : List (String × List Term),
    equalsBindings left right = true ↔ left = right
  | [], right => by cases right <;> simp [equalsBindings]
  | (_, value) :: rest, right => by
      cases right <;> simp [equalsBindings, Prod.ext_iff, equalsAll_iff value,
        equalsBindings_iff rest]

end

instance : DecidableEq Term := fun left right =>
  decidable_of_iff _ (equals_iff left right)

def kind : Term → String
  | .name _ => "name"
  | .str _ => "str"
  | .apply .. => "apply"
  | .lambda _ => "lambda"
  | .cond .. => "cond"
  | .curry .. => "curry"
  | .ticket _ => "ticket"

/-- Nothing is left to reduce: the term denotes exactly one value. -/
def isNormal : Term → Bool
  | .str _ | .lambda _ => true
  | _ => false

def isStr : Term → Bool
  | .str _ => true
  | _ => false

def lambda? : Term → Option Lambda
  | .lambda value => some value
  | _ => none

mutual

/-- Every block that a term refers to, in reading order. -/
def blocks : Term → List BlockId
  | .name _ | .str _ | .ticket _ | .lambda (.foreign _) => []
  | .lambda (.native value) => [value.body]
  | .apply task bindings _ _ => blocksOfAll task ++ blocksOfBindings bindings
  | .cond condition _ _ thenBlock elseBlock =>
      blocksOfAll condition ++ [thenBlock, elseBlock]
  | .curry none bindings => blocksOfBindings bindings
  | .curry (some task) bindings => blocksOfAll task ++ blocksOfBindings bindings
termination_by structural term => term

def blocksOfAll : List Term → List BlockId
  | [] => []
  | term :: rest => term.blocks ++ blocksOfAll rest
termination_by structural terms => terms

def blocksOfBindings : List (String × List Term) → List BlockId
  | [] => []
  | (_, value) :: rest => blocksOfAll value ++ blocksOfBindings rest
termination_by structural bindings => bindings

end

end Term

namespace Compound

def strs (values : List String) : Compound :=
  values.map .str

def isNormal (compound : Compound) : Bool :=
  compound.all Term.isNormal

def blocks (compound : Compound) : List BlockId :=
  Term.blocksOfAll compound

def numAtoms : Compound → Except Term Nat
  | [] => .ok 0
  | term :: rest => if term.isNormal then (numAtoms rest).map (1 + ·) else .error term

theorem numAtoms_eq_ok_iff {compound : Compound} {count : Nat} :
    numAtoms compound = .ok count ↔
      isNormal compound = true ∧ compound.length = count := by
  induction compound generalizing count with
  | nil => simp [numAtoms, isNormal]
  | cons term rest ih =>
      by_cases normal : term.isNormal = true
      · cases tail : numAtoms rest with
        | error open_ =>
            have never : ∀ n, ¬(isNormal rest = true ∧ rest.length = n) := by
              intro n holds
              have := ih.mpr holds
              simp [tail] at this
            have := never rest.length
            simp only [numAtoms, normal, tail, if_true, Except.map, isNormal,
              List.all_cons, Bool.true_and]
            simp only [isNormal] at this
            grind
        | ok found =>
            have known := ih.mp tail
            simp only [numAtoms, normal, tail, if_true, Except.map, Except.ok.injEq,
              isNormal, List.all_cons, Bool.true_and, List.length_cons]
            simp only [isNormal] at known
            grind
      · simp [numAtoms, normal, isNormal]

end Compound

namespace Apply

def areArgumentsNormal (apply : Apply) : Bool :=
  apply.bindings.all fun binding => Compound.isNormal binding.2

end Apply

end TicketFlow
