import TicketFlow.Proofs.Timing.Forerunning

namespace TicketFlow

/-! What is accepted once more is known.

Starting from the same context, every block that can be reached is paired with
itself, and the pass that knows less precedes the one that knows more.  So it is
rejected only for what it does because it knows less.
-/

namespace Context

/-- In the targets and in all blocks in use every application and every curry
binds each name once. -/
structure Keyed (context : Context) : Prop where
  targets : ∀ target ∈ context.targets, ∀ term ∈ target, term.Keyed
  bound :
    ∀ {slot block}, context.arena.Live slot block →
    ∀ term, BoundIn block.bindings term → term.Keyed

/-- It is enough to look at the blocks as they are stored. -/
theorem keyed_of_stored {context : Context}
    (targets : ∀ target ∈ context.targets, ∀ term ∈ target, term.Keyed)
    (bound : ∀ block ∈ context.arena.blocks.toList,
      ∀ term, BoundIn block.bindings term → term.Keyed) : context.Keyed where
  targets := targets
  bound live := bound _ (Array.mem_toList_iff.mpr (Array.mem_of_getElem? live.1))

variable {context : Context} {known more : Store} {waits : Placeholder → Prop}
  {depth : Nat} {consumer : ConsumerId} {query : QueryId} {reason : Halt}

/-- A block that only leads to blocks in use, and itself. -/
def Itself (context : Context) (slot other : BlockId) : Prop :=
  slot = other ∧ context.arena.Safe slot

/-- A term is like itself if it names no blocks but such. -/
theorem alike_itself {term : Term} (keyed : term.Keyed)
    (safe : ∀ block ∈ term.blocks, context.arena.Safe block) :
    term.Alike waits context.Itself term :=
  keyed.alike fun block named => ⟨rfl, safe block named⟩

theorem Keyed.mirrors (keyed : context.Keyed) :
    context.arena.Mirrors waits context.Made context.Itself context.arena where
  functional one two := one.1.symm.trans two.1
  injective one two := one.1.trans two.1.symm
  given unmade := not_forall_not.mp unmade
  blocks := by
    intro slot _ ⟨same, safe⟩
    obtain rfl := same
    obtain ⟨block, live⟩ := safe.live
    refine ⟨block, block, live, live, ?_, Bindings.foreshadows_refl fun term bound => ?_⟩
    · cases above : block.parent with
      | none => exact .none
      | some parent => exact .some ⟨rfl, safe.parent live above⟩
    · exact alike_itself (keyed.bound live term bound)
        (Arena.coversAll_iff.mp (safe.coversAll live) term bound)

theorem Closed.mirrors_start (closed : context.Closed)
    (keyed : context.Keyed) (consumer : ConsumerId) (query : QueryId) :
    (Pass.start consumer query known context.arena context.root).Mirrors known more
      context.Made context.Itself
      (Pass.start consumer query more context.arena context.root) where
  source := rfl
  sourceLate := rfl
  sound := closed.free
  soundLate := closed.free
  arena := keyed.mirrors
  root := ⟨rfl, (intact_iff.mp closed.intact).1⟩
  scopes := .nil
  resolving := .nil

theorem Closed.foreshadows_targets (closed : context.Closed) (keyed : context.Keyed) :
    List.Forall₂ (Compound.Foreshadows waits context.Itself) context.targets
      context.targets := by
  refine List.forall₂_same.mpr
    fun target among => Compound.foreshadows_refl fun term inside => ?_
  have covers := (intact_iff.mp closed.intact).2 target among
  exact alike_itself (keyed.targets target among term inside)
    (Arena.covers_iff.mp covers term inside)

/-- What is accepted with more known is rejected with less known exactly where it strays. -/
theorem Closed.rejected_iff_strays (closed : context.Closed)
    (keyed : context.Keyed) (within : known.Within more)
    (accepted : ∃ result, (context.reduce depth more consumer query).outcome = .ok result) :
    (context.reduce depth known consumer query).outcome = .error reason ↔
      context.Strays known.Waits depth known consumer query reason := by
  refine ⟨fun rejected => ?_, Strays.error⟩
  -- at the start nothing stands for something else
  have itself : List.Forall₂ (Compound.Foreshadows (WaitsIf False known.Waits) context.Itself)
      context.targets context.targets :=
    closed.foreshadows_targets keyed
  have precedes :=
    Reduction.precedes_reduceTargets within
      (closed.mirrors_start keyed consumer query) depth itself
  obtain ⟨result, accepted⟩ := accepted
  rw [outcome_reduce] at accepted rejected
  cases ran : (Reduction.reduceTargets depth context.targets
    (Pass.start consumer query more context.arena context.root)).1 with
  | error other =>
      rw [ran] at accepted
      nomatch accepted
  | ok results =>
      rcases precedes results ran with
          ⟨other, ended, target, reached, meets, strays⟩ | ⟨_, _, _, ended, _⟩
      · rw [ended] at rejected
        obtain rfl := Except.error.inj rejected
        exact ⟨target, reached, meets, strays⟩
      · rw [ended] at rejected
        nomatch rejected

/-- A placeholder for the ticket that every invocation gets. -/
def awaited : Term := .ticket ⟨⟨List.replicate 32 0, Digest.length_zeros⟩, 1, "y"⟩

def awaitedBranches : Cond where
  condition := [awaited]
  prototype := { params := [], outputs := ["y"] }
  channel := 1
  thenBlock := ⟨1⟩
  elseBlock := ⟨2⟩

/-- A conditional that waits, with a branch that does not bind the output. -/
def awaitingBranches : Context where
  arena := { blocks := #[{}, { bindings := [("y", [.str "a"])] }, {}] }
  root := ⟨0⟩
  targets := [[awaitedBranches.toTerm]]

theorem rejected_awaitingBranches :
    awaitingBranches.Closed ∧ awaitingBranches.Keyed ∧
      (Store.shared none).Within (Store.shared (some ["a"])) ∧
      (awaitingBranches.reduce 5 (Store.shared (some ["a"])) ⟨1⟩ ⟨1⟩).outcome =
        .ok [.str "a"] ∧
      awaitingBranches.Strays (Store.shared none).Waits 5 (Store.shared none) ⟨1⟩ ⟨1⟩
        (.rejected (.notBound awaitedBranches.toTerm "y")) := by
  have closed : awaitingBranches.Closed :=
    closed_of_whole rfl (by decide) (by decide) (by decide)
  have keyed : awaitingBranches.Keyed := by
    refine keyed_of_stored ?_ ?_
    · have condition : awaitedBranches.toTerm.Keyed :=
        .cond (by simpa [awaitedBranches] using .atom rfl)
      simpa [awaitingBranches] using condition
    · have value : Term.Keyed (.str "a") := .atom rfl
      simpa [awaitingBranches, BoundIn] using value
  have within : (Store.shared none).Within (Store.shared (some ["a"])) :=
    Store.within_shared _
  exact ⟨closed, keyed, within, rfl, (closed.rejected_iff_strays keyed within ⟨_, rfl⟩).mp rfl⟩

/-- A call with an argument that waits, and is reduced once more where
the body asks for it. -/
def awaitingArgument : Context where
  arena :=
    { blocks := #[{}, { bindings := [("o", [.name "p"]), ("y", [.curry none []])] }] }
  root := ⟨0⟩
  targets := [[.apply [.lambda (.native ⟨{ params := [], outputs := ["o"] }, ⟨1⟩⟩)]
    [("p", [.apply [awaited] [("q", [.name "y"])] 1 false])] 1 false]]

/-- A call that waits, and a conditional on the block that it would make. -/
def awaitingBlock : Context where
  arena := { blocks := #[{}, { bindings := [("y", [.str "b"])] }] }
  root := ⟨0⟩
  targets := [
    [.apply [.lambda (.native ⟨{ params := [.plain "x"], outputs := ["y"] }, ⟨1⟩⟩)]
      [("x", [awaited])] 1 false], [.cond [] { params := [], outputs := ["x"] } 1 ⟨1⟩ ⟨2⟩]]

/-- With more known all three are accepted, and with less known none of them is. -/
theorem rejected_while_waiting :
    (∀ outputs, (Store.shared none).Within (Store.shared outputs)) ∧
      (awaitingBranches.reduce 5 (Store.shared (some ["a"])) ⟨1⟩ ⟨1⟩).outcome =
        .ok [.str "a"] ∧ (awaitingBranches.reduce 5 (Store.shared none) ⟨1⟩ ⟨1⟩).outcome =
        .error (.rejected (.notBound awaitedBranches.toTerm "y")) ∧
      (awaitingArgument.reduce 5 (Store.shared (some [])) ⟨1⟩ ⟨1⟩).outcome = .ok [] ∧
      (awaitingArgument.reduce 5 (Store.shared none) ⟨1⟩ ⟨1⟩).outcome =
        .error (.rejected (.curryWithoutTask { task := none, bindings := [] })) ∧
      (awaitingBlock.reduce 5 (Store.shared (some ["a"])) ⟨1⟩ ⟨1⟩).outcome =
        .ok [.str "b", .str "a"] ∧
      (awaitingBlock.reduce 5 (Store.shared none) ⟨1⟩ ⟨1⟩).outcome =
        .error (.fault (.outOfRange ⟨2⟩)) :=
  ⟨Store.within_shared, rfl, rfl, rfl, rfl, rfl, rfl⟩

end Context

end TicketFlow
