import Mathlib.Data.Finset.Card
import Mathlib.Data.Finset.Order
import Mathlib.Data.List.ProdSigma
import TicketFlow.Proofs.Arena.Ancestry
import TicketFlow.Proofs.Reduction.Termination

namespace TicketFlow

/-! Names that lead back to themselves.

A name is marked, with its scope, while what it is bound to is reduced, and stays
where it is met again.  There are as many marks as there are slots and bound
names, however the names are bound to each other; and between two marks a term is
only taken apart, or a branch entered whose conditionals have branches of smaller
rank.  So every reduction comes to an end.
-/

namespace Arena

/-- Every mark that a name can have while it is being resolved. -/
def marks (arena : Arena) : List (BlockId × String) :=
  List.product ((List.range arena.slots).map BlockId.mk)
    (arena.blocks.toList.flatMap fun block => block.bindings.keys)

/-- How many names can still be marked. -/
def unmarked (arena : Arena) (resolving : List (BlockId × String)) : Nat :=
  (arena.marks.toFinset \ resolving.toFinset).card

variable {arena : Arena} {slot : BlockId} {name : String} {value : Compound}
  {resolving : List (BlockId × String)} {key : BlockId × String}

theorem unmarked_cons_lt (among : key ∈ arena.marks) (open_ : key ∉ resolving) :
    arena.unmarked (key :: resolving) < arena.unmarked resolving := by
  refine Finset.card_lt_card (Finset.ssubset_iff_of_subset ?_ |>.mpr ⟨key, ?_, ?_⟩)
  · exact Finset.sdiff_subset_sdiff subset_rfl
      fun other marked => by simpa using .inr (List.mem_toFinset.mp marked)
  · simp [among, open_]
  · simp

/-- What a search from a safe slot finds is bound in a block in use, which is safe too. -/
theorem Safe.exists_holder (safe : arena.Safe slot)
    (read : arena.lookup slot name = .ok (some value)) :
    ∃ holder block, arena.Safe holder ∧ arena.Live holder block ∧
      block.get? name = some value := by
  obtain ⟨path, finds⟩ := lookup_ok_iff.mp read
  clear read
  generalize result : some value = found at finds
  induction finds with
  | here stored bound =>
      obtain ⟨block, live⟩ := safe.live
      obtain rfl := Option.some.inj (live.1.symm.trans stored)
      exact ⟨_, _, safe, live, Option.some.inj result ▸ bound⟩
  | nowhere => simp at result
  | above stored _ parent _ ih =>
      obtain ⟨block, live⟩ := safe.live
      obtain rfl := Option.some.inj (live.1.symm.trans stored)
      exact ih (safe.parent live parent) result

theorem mem_marks {holder : BlockId} {block : Block} (safe : arena.Safe slot)
    (stored : arena.block? holder = some block) (bound : block.get? name = some value) :
    (slot, name) ∈ arena.marks := by
  obtain ⟨found, live⟩ := safe.live
  refine List.mem_product.mpr
    ⟨List.mem_map.mpr ⟨slot.index, List.mem_range.mpr (index_lt_of_block? live.1), rfl⟩, ?_⟩
  refine List.mem_flatMap.mpr
    ⟨block, Array.mem_toList_iff.mpr (Array.mem_of_getElem? stored), ?_⟩
  exact List.mem_map.mpr ⟨_, OrderedMap.mem_of_get? bound, rfl⟩

/-- The chains of parents end, no block in use holds a native lambda or a curry, and the
branches of the conditionals that it holds have a smaller rank than the block. -/
structure Unwinds (arena : Arena) (rank : BlockId → Nat) : Prop where
  ends : ∀ {slot block}, arena.Live slot block → ∃ path, arena.Ancestry slot path
  firstOrder :
    ∀ {slot block}, arena.Live slot block →
    ∀ term, BoundIn block.bindings term → term.FirstOrder
  nested :
    ∀ {slot block}, arena.Live slot block →
    ∀ branch ∈ Term.blocksOfBindings block.bindings, rank branch < rank slot

/-- From a safe slot every look-up is answered. -/
theorem Unwinds.lookup {rank : BlockId → Nat} (unwinds : arena.Unwinds rank)
    (safe : arena.Safe slot) (name : String) :
    ∃ found, arena.lookup slot name = .ok found := by
  obtain ⟨block, live⟩ := safe.live
  obtain ⟨path, ancestry⟩ := unwinds.ends live
  obtain ⟨visited, found, finds⟩ := ancestry.finds name
  exact ⟨found, lookup_ok_iff.mpr ⟨visited, finds⟩⟩

end Arena

variable {σ : Type} [TicketSource σ] {base : Arena} {rank : BlockId → Nat}
  {scope : BlockId} {resolving : List (BlockId × String)} {pass : Pass σ}
  {terms : Compound}

/-- The pass is in this scope, where these names are being resolved, and has
the blocks of the arena. -/
structure Pass.Around (base : Arena) (scope : BlockId)
    (resolving : List (BlockId × String)) (pass : Pass σ) : Prop where
  arena : base.Preserves pass.arena
  scope : pass.scope = scope
  resolving : pass.resolving = resolving
  literal : pass.Literal

theorem Pass.Around.proceeds {before after : Pass σ}
    (around : before.Around base scope resolving) (proceeds : before.Proceeds after) :
    after.Around base scope resolving where
  arena := around.arena.trans proceeds.framed.arena
  scope := by
    rw [← around.scope, Pass.scope, Pass.scope, proceeds.framed.scopes,
      proceeds.framed.root]
  resolving := proceeds.framed.resolving.trans around.resolving
  literal := around.literal.proceeds proceeds

theorem Pass.Around.enter {branch : BlockId} (around : pass.Around base scope resolving) :
    (PassM.enter branch pass).Around base branch resolving :=
  ⟨around.arena, rfl, around.resolving, around.literal⟩

theorem Pass.Around.mark {key : BlockId × String}
    (around : pass.Around base scope resolving) :
    Pass.Around base scope (key :: resolving)
      { pass with resolving := key :: pass.resolving } :=
  ⟨around.arena, around.scope, congrArg (key :: ·) around.resolving, around.literal⟩

namespace Reduction

open PassM

/-- A name comes to an end if what it is bound to does while the name is marked. -/
theorem stops_reduceName {name : String} (unwinds : base.Unwinds rank)
    (safe : base.Safe scope) (around : pass.Around base scope resolving)
    (bound : ∀ value (after : Pass σ), base.lookup scope name = .ok (some value) →
      (scope, name) ∉ resolving → after.Around base scope ((scope, name) :: resolving) →
      Stops AllPassive (fun depth => reduce depth value) after) :
    Stops AllPassive (fun depth => reduceName (reduce depth) name) pass := by
  have stays : AllPassive [.name name] :=
    fun term among native => by simp [List.mem_singleton.mp among]
  refine (stops_view around.scope.symm : Stops (scope = ·)
    (fun _ => view Pass.scope) pass).bind ?_
  rintro _ middle reached rfl
  have around := around.proceeds reached
  obtain ⟨found, read⟩ := unwinds.lookup safe name
  have readNow : middle.arena.lookup scope name = .ok found :=
    around.arena.lookup safe read
  refine (stops_inspect readNow rfl : Stops (found = ·) _ middle).bind ?_
  rintro _ after further rfl
  have around := around.proceeds further
  cases found with
  | none => exact stops_pure stays
  | some value =>
      refine (stops_view rfl : Stops (after.resolving.contains (scope, name) = ·)
        _ after).bind ?_
      rintro _ last onward rfl
      have onwardAround := around.proceeds onward
      cases marked : after.resolving.contains (scope, name) with
      | true => exact stops_pure stays
      | false =>
          have unmarked : (scope, name) ∉ resolving := by
            simpa [around.resolving] using marked
          refine Stops.whileResolving (onwardAround.resolving ▸ unmarked) ?_
          exact bound value _ read unmarked onwardAround.mark

/-- The output of a branch comes to an end if what it is bound to does in
the scope of the branch. -/
theorem stops_reduceOutput {branch : BlockId} (cond : Cond) (output : String)
    (safe : base.Safe branch) (around : pass.Around base scope resolving)
    (bound : ∀ block value (after : Pass σ), base.Live branch block →
      block.get? output = some value → after.Around base branch resolving →
      Stops AllPassive (fun depth => reduce depth value) after) :
    Stops AllPassive (fun depth => reduceOutput (reduce depth) cond branch output) pass := by
  obtain ⟨block, live⟩ := safe.live
  have read : pass.arena.getLocal branch output = .ok (block.get? output) := by
    rw [Arena.getLocal, Arena.get_ok (around.arena.live live).1]
    rfl
  refine (stops_inspect read rfl : Stops (block.get? output = ·) _ pass).bind ?_
  rintro _ middle reached rfl
  refine (stops_require fun _ => id : Stops (block.get? output = some ·) _ middle).bind
    fun value after further found => ?_
  exact Stops.inScope
    (bound block value _ live found ((around.proceeds reached).proceeds further).enter)

theorem exists_rank_bound (rank : BlockId → Nat) (blocks : List BlockId) :
    ∃ bound, ∀ block ∈ blocks, rank block < bound := by
  obtain ⟨bound, above⟩ := (blocks.map rank).toFinset.exists_le
  refine ⟨bound + 1, fun block among => Nat.lt_succ_of_le (above _ ?_)⟩
  exact List.mem_toFinset.mpr (List.mem_map_of_mem among)

/-- Between two marks the branches have ever smaller ranks, and with each mark
there are fewer to come. -/
theorem stops_within (unwinds : base.Unwinds rank) (left bound : Nat)
    (safe : base.Safe scope) (fewer : base.unmarked resolving ≤ left)
    (firstOrder : ∀ term ∈ terms, term.FirstOrder)
    (blocks : ∀ block ∈ terms.blocks, base.Safe block ∧ rank block < bound)
    (around : pass.Around base scope resolving) :
    Stops AllPassive (fun depth => reduce depth terms) pass := by
  induction left using Nat.strong_induction_on generalizing scope resolving
    terms bound pass with
  | _ left marking =>
    induction bound using Nat.strong_induction_on generalizing scope terms pass with
    | _ bound entering =>
      have names : ∀ {pass : Pass σ} name, pass.Around base scope resolving →
          Stops AllPassive (fun depth => reduceName (reduce depth) name) pass := by
        intro pass name around
        refine stops_reduceName unwinds safe around fun value after read unmarked marked => ?_
        obtain ⟨holder, block, held, live, found⟩ := safe.exists_holder read
        have less := Arena.unmarked_cons_lt (Arena.mem_marks safe live.1 found) unmarked
        obtain ⟨further, below⟩ := exists_rank_bound rank value.blocks
        exact marking _ (Nat.lt_of_lt_of_le less fewer) further safe le_rfl
          (fun term inside =>
            unwinds.firstOrder live term ⟨_, OrderedMap.mem_of_get? found, inside⟩)
          (fun other named => ⟨held.covers live found other named, below other named⟩) marked
      have branches : ∀ {pass : Pass σ} {branch} cond output,
          base.Safe branch ∧ rank branch < bound → pass.Around base scope resolving →
          Stops AllPassive
            (fun depth => reduceOutput (reduce depth) cond branch output) pass := by
        intro pass branch cond output within around
        refine stops_reduceOutput cond output within.1 around
          fun block value after live found entered => ?_
        refine entering (rank branch) within.2 within.1
          (fun term inside => unwinds.firstOrder live term
            ⟨_, OrderedMap.mem_of_get? found, inside⟩) (fun other named =>
            ⟨within.1.covers live found other named, unwinds.nested live other ?_⟩) entered
        obtain ⟨term, inside, among⟩ := Term.mem_blocksOfAll.mp named
        exact Term.mem_blocksOfBindings.mpr
          ⟨term, ⟨_, OrderedMap.mem_of_get? found, inside⟩, among⟩
      refine stops_reduce fun term among after proceeds => ?_
      exact stops_reduceTerm Pass.Around.proceeds Pass.Around.literal names branches
        (firstOrder term among)
        (fun block named => blocks block (Term.mem_blocksOfAll.mpr ⟨term, among, named⟩))
        (around.proceeds proceeds)

end Reduction

/-- Name cycles do not make a reduction go on for ever.  Let all that the scope and the
terms lead to be blocks in use: in a released slot, a copy of a branch could be made that
leads back to itself.  If the chains of parents end, neither the terms nor the blocks hold
a native lambda or a curry, and conditionals nest well-foundedly, then with enough depth
the reduction of the terms comes to one and the same end, in every scope, whatever is
being resolved, and for every source whose outputs are strings. -/
theorem Pass.reduce_comes_to_an_end (unwinds : pass.arena.Unwinds rank)
    (scope : pass.arena.Safe pass.scope) (covers : pass.arena.Covers terms)
    (firstOrder : ∀ term ∈ terms, term.FirstOrder) (literal : pass.Literal) :
    ∃ least outcome after,
      (∀ depth, least ≤ depth → Reduction.reduce depth terms pass = (outcome, after)) ∧
      ∀ reason, outcome = .error reason →
        reason ≠ .exhausted ∧ ∀ block, reason ≠ .fault (.endlessChain block) := by
  obtain ⟨bound, below⟩ := Reduction.exists_rank_bound rank terms.blocks
  obtain ⟨least, outcome, after, same, _, concludes⟩ :=
    Reduction.stops_within unwinds _ bound scope le_rfl firstOrder
      (fun block named => ⟨covers block named, below block named⟩)
      ⟨.refl _, rfl, rfl, literal⟩
  refine ⟨least, outcome, after, same, ?_⟩
  rintro reason rfl
  exact ⟨by rintro rfl; exact concludes, by rintro block rfl; exact concludes⟩

/-- Where every parent is an earlier slot, the chains of parents end. -/
theorem Arena.unwinds_of_earlier {arena : Arena}
    (earlier : ∀ entry ∈ arena.blocks.toList.zipIdx,
      (∀ above ∈ entry.1.parent, above.index < entry.2) ∧
      (∀ binding ∈ entry.1.bindings, ∀ term ∈ binding.2, term.FirstOrder) ∧
      ∀ branch ∈ Term.blocksOfBindings entry.1.bindings, rank branch < rank ⟨entry.2⟩) :
        arena.Unwinds rank := by
  have listed {slot : BlockId} {block : Block} (stored : arena.block? slot = some block) :
      (block, slot.index) ∈ arena.blocks.toList.zipIdx := by
    rw [List.mk_mem_zipIdx_iff_getElem?, Array.getElem?_toList]
    exact stored
  have ends (index : Nat) (block : Block) (stored : arena.block? ⟨index⟩ = some block) :
      ∃ path, arena.Ancestry ⟨index⟩ path := by
    induction index using Nat.strong_induction_on generalizing block with
    | _ index ih =>
      cases parent : block.parent with
      | none => exact ⟨_, .top stored parent⟩
      | some above =>
          have before : above.index < index := (earlier _ (listed stored)).1 above parent
          obtain ⟨found, there⟩ :=
            block?_of_lt (Nat.lt_trans before (index_lt_of_block? stored))
          obtain ⟨path, ancestry⟩ := ih above.index before found there
          exact ⟨_, .under stored parent ancestry⟩
  exact
    { ends := fun live => ends _ _ live.1
      firstOrder := fun live term ⟨binding, among, inside⟩ =>
        (earlier _ (listed live.1)).2.1 binding among term inside
      nested := fun live => (earlier _ (listed live.1)).2.2 }

namespace Store

/-- Chooses between the outputs of two branches. -/
def choosing (condition : Compound) (thenBlock elseBlock : Nat) : Term :=
  .cond condition { params := [], outputs := ["y"] } 1 ⟨thenBlock⟩ ⟨elseBlock⟩

/-- Names that lead back to themselves directly, through each other, through an argument
and through branches. -/
def circular : Arena where
  blocks := #[
    { bindings := [
        ("y", [choosing [.name "y"] 1 2]),
        ("z", [.name "w", .name "z"]),
        ("w", [.name "z",
          .apply [.lambda (.foreign copyTask)] [("x", [.name "w"])] 1 false])] },
    { parent := some ⟨0⟩, bindings := [("y", [choosing [] 2 2, .name "w"])] },
    { parent := some ⟨0⟩, bindings := [("y", [.name "z", .name "y"])] }]

theorem reduce_circular :
    circular.Unwinds (2 - ·.index) ∧ circular.Safe ⟨0⟩ ∧
      circular.Covers [.name "y", .name "w"] ∧ ∃ least outcome after,
      (∀ depth, least ≤ depth → Reduction.reduce depth [.name "y", .name "w"]
        (Pass.start ⟨1⟩ ⟨1⟩ finishing circular ⟨0⟩) = (outcome, after)) ∧
      ∀ reason, outcome = .error reason →
        reason ≠ .exhausted ∧ ∀ block, reason ≠ .fault (.endlessChain block) := by
  have unwinds : circular.Unwinds (2 - ·.index) := Arena.unwinds_of_earlier (by decide)
  have closed : Context.Closed
      { arena := circular, root := ⟨0⟩, targets := [[.name "y", .name "w"]] } :=
    Context.closed_of_whole rfl (by decide) (by decide) (by decide)
  obtain ⟨safe, covers⟩ := Context.intact_iff.mp closed.intact
  have covers := covers _ (List.mem_singleton_self _)
  exact ⟨unwinds, safe, covers,
    Pass.reduce_comes_to_an_end unwinds safe covers (by decide)
      (literal.contended.start sound_finishing ⟨1⟩ ⟨1⟩ circular ⟨0⟩)⟩

/-- Stands for what the second slot binds. -/
def looping : Cond where
  condition := []
  prototype := { params := [], outputs := ["w"] }
  channel := 1
  thenBlock := ⟨1⟩
  elseBlock := ⟨1⟩

/-- The second slot is released, and what the third one binds leads to it. -/
def reissued : Arena where
  blocks := #[{}, {}, { bindings := [("y", [.str "a"]), ("w", [looping.toTerm])] }]
  free := [⟨1⟩]

/-- A conditional that its own branch leads back to is taken for ever. -/
theorem exhausted_looping {block : Block} (stored : pass.arena.block? ⟨1⟩ = some block)
    (bound : block.get? "w" = some [looping.toTerm]) (depth : Nat) :
    ∃ after, Reduction.reduce depth [looping.toTerm] pass = (.error .exhausted, after) := by
  induction depth generalizing pass with
  | zero => exact ⟨_, rfl⟩
  | succ depth ih =>
      cases depth with
      | zero => exact ⟨_, rfl⟩
      | succ depth =>
          -- The condition is empty, so the branch is entered.
          have entered : Reduction.reduce (depth + 2) [looping.toTerm] pass =
              (Reduction.reduceOutput (Reduction.reduce (depth + 1)) looping ⟨1⟩ "w" >>=
                fun value =>
                pure (value ++ [])) pass := rfl
          have read : pass.arena.getLocal ⟨1⟩ "w" = .ok (some [looping.toTerm]) := by
            simp [Arena.getLocal, Arena.get, stored, bound, Except.map]
          obtain ⟨after, again⟩ := @ih (PassM.enter ⟨1⟩ pass) stored
          rw [entered]
          simp [Reduction.reduceOutput, PassM.bind_run, PassM.inspect, read,
            Reduction.require, PassM.inScope, again]

/-- With a released slot among the branches, a reduction goes on for ever; with a slot
beyond the arena, it ends in a fault. -/
theorem exhausted_reissued :
    ({ reissued with free := [] } : Arena).Unwinds (·.index) ∧
      (∀ term ∈ [choosing [.name "p"] 2 2, looping.toTerm], term.FirstOrder) ∧
      (∀ depth, (Reduction.reduce depth [choosing [.name "p"] 2 2, looping.toTerm]
        (Pass.start ⟨1⟩ ⟨1⟩ (shared none) reissued ⟨0⟩)).1 = .error .exhausted) ∧
      ∀ depth, (Reduction.reduce (depth + 3) [choosing [.name "p"] 7 7]
        (Pass.start ⟨1⟩ ⟨1⟩ (shared none) reissued ⟨0⟩)).1 =
        .error (.fault (.outOfRange ⟨7⟩)) := by
  refine ⟨Arena.unwinds_of_earlier (by decide), by decide, fun depth => ?_, fun _ => rfl⟩
  match depth with
  | 0 | 1 | 2 => rfl
  | depth + 3 =>
      -- The first conditional is copied into the released slot.
      obtain ⟨between, copied, stored⟩ : ∃ after,
          Reduction.reduceTerm (Reduction.reduce (depth + 2))
            (choosing [.name "p"] 2 2) (Pass.start ⟨1⟩ ⟨1⟩ (shared none) reissued ⟨0⟩) =
            (.ok [choosing [.name "p"] 1 3], after) ∧
          after.arena.block? ⟨1⟩ = reissued.block? ⟨2⟩ := ⟨_, rfl, rfl⟩
      obtain ⟨after, endless⟩ := exhausted_looping stored rfl (depth + 3)
      rw [Reduction.reduce, PassM.joinMap_singleton] at endless
      rw [Reduction.reduce, PassM.joinMap, PassM.bind_run, copied,
        PassM.joinMap_singleton]
      simp only [PassM.bind_run, endless]

end Store

end TicketFlow
