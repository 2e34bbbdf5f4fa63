import TicketFlow.Proofs.Arena.Holding
import TicketFlow.Proofs.Evaluation.Store
import TicketFlow.Proofs.Reduction.Closure
import TicketFlow.Proofs.Stability.Rest

namespace TicketFlow

/-! No placeholder is stale after a pass.

The search for placeholders and a pass take the same ways through a term, except
that the search also enters curries of several tasks.  Where no curry stands,
whatever the search can find in the result is something that the pass has left
because there is no output for it.
-/

/-- Nothing is hidden where no curry stands. -/
theorem Arena.Grounded.not_hides {arena : Arena} {slots : Set BlockId}
    {placeholder : Placeholder} {term : Term} (grounded : arena.Grounded slots)
    (within : term.Grounded slots) : ¬arena.Hides placeholder term := by
  intro hides
  unfold Hides at hides
  induction hides with
  | several | curryTask | curryBinding => cases within
  | task inside _ ih =>
      cases within with
      | apply task _ => exact ih (task _ inside)
  | argument bound _ ih =>
      cases within with
      | apply _ arguments => exact ih (arguments _ bound)
  | condition inside _ ih =>
      cases within with
      | cond condition _ _ => exact ih (condition _ inside)
  | output _ branch given inside _ ih =>
      cases within with
      | cond _ thenBlock elseBlock =>
          obtain ⟨block, stored, found⟩ := Option.bind_eq_some_iff.mp given
          have slot :=
            branch.elim (fun same => same ▸ thenBlock) fun same => same ▸ elseBlock
          exact ih (grounded.bound slot stored ⟨_, OrderedMap.mem_of_get? found, inside⟩)

theorem Context.Grounded.not_hides {context : Context} {placeholder : Placeholder}
    {term : Term} (grounded : context.Grounded) (inside : term ∈ context.current) :
    ¬context.arena.Hides placeholder term := by
  obtain ⟨slots, arena, _, targets⟩ := Context.grounded_iff.mp grounded
  exact arena.not_hides (targets term inside)

section Passes

variable {σ : Type} [TicketSource σ] {consumer : ConsumerId} {query : QueryId}
  {context : Context} {source : σ} {outputs : TicketId → Nat → Option Compound}

/-- A source with these outputs accounts for any placeholders. -/
theorem TicketSource.Literal.accounts
    (literal : TicketSource.Literal (TicketSource.Knows (σ := σ) outputs))
    (consumer : ConsumerId) (query : QueryId) :
    Accounts consumer query (TicketSource.Knows (σ := σ) outputs) fun _ _ => True where
  request knows _ granted :=
    have still := literal.granted knows granted
    ⟨still, trivial, fun _ _ => trivial,
      fun id channel => (still id channel).trans (knows id channel).symm⟩
  read knows same :=
    have still := same ▸ literal.read knows
    ⟨still, fun _ _ => trivial,
      fun id channel => (still id channel).trans (knows id channel).symm⟩
  literal := literal.literal

/-- No placeholder is stale after a pass that succeeds: if no block id dangles and no
curry stands in the targets or blocks, and as long as the outputs stay the same, then
there is no output for any placeholder that the search may find in the result. -/
theorem Context.Grounded.no_stale_placeholder
    (grounded : context.Grounded) (free : context.arena.Sound)
    (literal : TicketSource.Literal (TicketSource.Knows (σ := σ) outputs))
    (knows : TicketSource.Knows outputs source) (depth : Nat) {result : Compound}
    (succeeds : (context.reduce depth source consumer query).outcome = .ok result) :
    let passed :=
  context.reduce depth source consumer query
    (passed.context.arena.holdsPlaceholder result = true ↔
        ∃ placeholder, passed.context.arena.Holds placeholder result) ∧
        ∀ placeholder, passed.context.arena.Holds placeholder result →
        TicketSource.output? passed.source placeholder.ticket placeholder.channel = none := by
  have accounts := literal.accounts consumer query
  have accounted : context.Accounted fun _ => True :=
    ⟨free, fun _ _ _ => trivial, fun _ _ _ _ => trivial⟩
  obtain ⟨still, _, settled⟩ := accounted.reduce accounts knows depth
  obtain ⟨same, waits⟩ := settled result succeeds
  have left := (grounded.reduce accounts free knows depth).1
  refine ⟨Arena.holdsPlaceholder_iff, fun placeholder ⟨term, inside, shows_⟩ => ?_⟩
  exact waits term inside placeholder
    ((Term.shows_iff.mp shows_).resolve_right (left.not_hides (same ▸ inside)))

end Passes

section Samples

namespace Context

/-- One output of a ticket with two. -/
def outputOf (channel : Nat) : Term :=
  .ticket ⟨⟨List.replicate 32 0, Digest.length_zeros⟩, channel, "y"⟩

/-- A choice that depends on one output of a ticket, with both of them in a branch. -/
def halfKnown : Context where
  arena := {
    blocks := #[{}, { bindings := [("y", [outputOf 1, outputOf 2])] },
      { bindings := [("y", [.str "n"])] }] }
  root := ⟨0⟩
  targets := [[.cond [outputOf 2] { params := [], outputs := ["y"] } 1 ⟨1⟩ ⟨2⟩]]

/-- The first output is there. -/
def firstOutput (_ : TicketId) (channel : Nat) : Option (List String) :=
  if channel = 1 then some ["a"] else none

def halfStore : Store where
  identity _ _ := ⟨List.replicate 32 0, Digest.length_zeros⟩
  outputs := firstOutput

theorem closed_halfKnown : halfKnown.Closed :=
  closed_of_whole rfl (by decide) (by decide) (by decide)

/-- No id dangles in it, and there is no curry. -/
theorem grounded_halfKnown : halfKnown.Grounded := by
  refine closed_halfKnown.grounded (fun {slot block term} _ stored bound => ?_)
    fun term inside => ?_
  · obtain ⟨binding, member, inside⟩ := bound
    obtain ⟨_ | _ | _ | index⟩ := slot <;> cases stored
    · cases member
    · obtain rfl := List.mem_singleton.mp member
      rcases List.mem_cons.mp inside with rfl | rest
      · exact .ticket _
      · exact List.mem_singleton.mp rest ▸ .ticket _
    · obtain rfl := List.mem_singleton.mp member
      exact List.mem_singleton.mp inside ▸ .str _
  · obtain rfl := List.mem_singleton.mp inside
    exact .cond (fun term inside => List.mem_singleton.mp inside ▸ .ticket _) trivial trivial

/-- What is left is a choice again, whose branch has the output that is there
instead of its placeholder. -/
theorem no_stale_placeholder_halfKnown :
    (halfKnown.reduce 9 halfStore ⟨1⟩ ⟨1⟩).outcome =
        .ok [.cond [outputOf 2] { params := [], outputs := ["y"] } 1 ⟨3⟩ ⟨4⟩] ∧
      (halfKnown.reduce 9 halfStore ⟨1⟩ ⟨1⟩).context.arena.output? ⟨3⟩ "y" =
        some [.str "a", outputOf 2] ∧ ∀ placeholder,
        (halfKnown.reduce 9 halfStore ⟨1⟩ ⟨1⟩).context.arena.Holds placeholder
          [.cond [outputOf 2] { params := [], outputs := ["y"] } 1 ⟨3⟩ ⟨4⟩] →
        TicketSource.output? (halfKnown.reduce 9 halfStore ⟨1⟩ ⟨1⟩).source
          placeholder.ticket placeholder.channel = none := by
  have succeeds : (halfKnown.reduce 9 halfStore ⟨1⟩ ⟨1⟩).outcome =
      .ok [.cond [outputOf 2] { params := [], outputs := ["y"] } 1 ⟨3⟩ ⟨4⟩] := by rfl
  exact ⟨succeeds, by rfl, (grounded_halfKnown.no_stale_placeholder closed_halfKnown.free
    (Store.literal_knows firstOutput) (fun _ _ => rfl) 9 succeeds).2⟩

end Context

end Samples

end TicketFlow
