import TicketFlow.Proofs.Timing.Foreshadow

namespace TicketFlow

/-! Terms with all of their blocks numbered differently.

Two runs that make their blocks in different slots come to terms that are the same
up to the numbers of these blocks, in bodies of lambdas as well as in branches of
conditionals.  While the runs go on the blocks are paired; once they are over, every
function that agrees with the pairs turns the one result into the other.
-/

mutual

/-- The term with every block that it names renumbered, unlike by
`Term.relabel` in lambdas too. -/
def Term.renumber (number : BlockId → BlockId) : Term → Term
  | .lambda (.native native) =>
      .lambda (.native { native with body := number native.body })
  | .apply task bindings channel rest =>
      .apply (renumberAll number task) (renumberBindings number bindings) channel rest
  | .cond condition prototype channel thenBlock elseBlock =>
      .cond (renumberAll number condition) prototype channel (number thenBlock)
        (number elseBlock)
  | .curry none bindings => .curry none (renumberBindings number bindings)
  | .curry (some task) bindings =>
      .curry (some (renumberAll number task)) (renumberBindings number bindings)
  | term => term
termination_by structural term => term

def Term.renumberAll (number : BlockId → BlockId) : List Term → List Term
  | [] => []
  | term :: rest => term.renumber number :: renumberAll number rest
termination_by structural terms => terms

def Term.renumberBindings (number : BlockId → BlockId) :
    List (String × List Term) → List (String × List Term)
  | [] => []
  | (key, value) :: rest =>
      (key, renumberAll number value) :: renumberBindings number rest
termination_by structural bindings => bindings

end

abbrev Compound.renumber (number : BlockId → BlockId) (terms : Compound) : Compound :=
  Term.renumberAll number terms

def Block.renumber (number : BlockId → BlockId) (block : Block) : Block where
  parent := block.parent.map number
  bindings := Term.renumberBindings number block.bindings

section Atoms

variable {term : Term} {number : BlockId → BlockId}

theorem Term.renumber_of_isAtomic (atomic : term.isAtomic = true) :
    term.renumber number = term := by
  cases term with
  | name | str | ticket => rfl
  | _ => exact absurd atomic Bool.false_ne_true

theorem Term.blocks_of_isAtomic (atomic : term.isAtomic = true) : term.blocks = [] := by
  cases term with
  | name | str | ticket => rfl
  | _ => exact absurd atomic Bool.false_ne_true

end Atoms

/-- Nothing waits. -/
def nothingWaits (_ : Placeholder) : Prop :=
  False

/-- The same terms, up to the numbers of blocks. -/
abbrev Compound.Tallies (pairs : BlockId → BlockId → Prop) : Compound → Compound → Prop :=
  Compound.Foreshadows nothingWaits pairs

/-- The same arguments under the same names, up to the numbers of blocks. -/
abbrev Bindings.Tallies (pairs : BlockId → BlockId → Prop) : Bindings → Bindings → Prop :=
  Bindings.Foreshadows nothingWaits pairs

variable {pairs : BlockId → BlockId → Prop} {number : BlockId → BlockId}

theorem Term.Awaits.of_nothing {term : Term}
    (awaits : term.Awaits nothingWaits) : False :=
  awaits.exists_waits.elim fun _ => id

theorem Compound.not_awaits_nothing (terms : Compound) : ¬terms.Awaits nothingWaits :=
  fun ⟨_, _, awaits⟩ => awaits.of_nothing

/-- One term for each. -/
theorem Compound.Tallies.forall₂ {terms others : Compound}
    (tallies : terms.Tallies pairs others) :
    List.Forall₂ (Term.Alike nothingWaits pairs) terms others :=
  Compound.Foreshadows.forall₂ tallies terms.not_awaits_nothing

section Numbers

mutual

theorem Term.Alike.renumber
    (agrees : ∀ slot other, pairs slot other → number slot = other) {term other : Term} :
    term.Alike nothingWaits pairs other → other = term.renumber number
  | .atom atomic => (Term.renumber_of_isAtomic atomic).symm
  | .lambda (.native bodies) => by rw [Term.renumber, agrees _ _ bodies]
  | .lambda (.foreign lambda) => rfl
  | .apply tasks arguments _ => by
      rw [Term.renumber, Compound.Foreshadows.renumber agrees tasks,
        Bindings.Foreshadows.renumber agrees arguments]
  | .cond conditions thenBlocks elseBlocks => by
      rw [Term.renumber, Compound.Foreshadows.renumber agrees conditions,
        agrees _ _ thenBlocks, agrees _ _ elseBlocks]
  | .bare arguments =>
      by rw [Term.renumber, Bindings.Foreshadows.renumber agrees arguments]
  | .curry tasks arguments => by
      rw [Term.renumber, Compound.Foreshadows.renumber agrees tasks,
        Bindings.Foreshadows.renumber agrees arguments]
termination_by structural alike => alike

theorem Compound.Foreshadows.renumber
    (agrees : ∀ slot other, pairs slot other → number slot = other)
    {terms others : Compound} :
    terms.Foreshadows nothingWaits pairs others → others = Term.renumberAll number terms
  | .nil => rfl
  | .waiting awaits _ => awaits.of_nothing.elim
  | .alike here rest => by
      rw [Term.renumberAll, ← Term.Alike.renumber agrees here,
        ← Compound.Foreshadows.renumber agrees rest]
termination_by structural foreshadows => foreshadows

/-- What is paired with the terms is the terms with their blocks renumbered. -/
theorem Bindings.Foreshadows.renumber
    (agrees : ∀ slot other, pairs slot other → number slot = other)
    {bindings others : Bindings} :
    Bindings.Foreshadows nothingWaits pairs bindings others →
      others = Term.renumberBindings number bindings
  | .nil => rfl
  | .cons value rest => by
      rw [Term.renumberBindings, ← Compound.Foreshadows.renumber agrees value,
        ← Bindings.Foreshadows.renumber agrees rest]
termination_by structural matches_ => matches_

end

end Numbers

section Pairs

/-- The block is paired with another one. -/
def Paired (pairs : BlockId → BlockId → Prop) (slot : BlockId) : Prop :=
  ∃ other, pairs slot other

mutual

theorem Term.Alike.paired {term other : Term} :
    term.Alike nothingWaits pairs other → ∀ block ∈ term.blocks, Paired pairs block
  | .atom atomic =>
      fun _ named => absurd (Term.blocks_of_isAtomic atomic ▸ named) List.not_mem_nil
  | .lambda (.native bodies) => List.forall_mem_singleton.mpr ⟨_, bodies⟩
  | .lambda (.foreign lambda) => fun _ named => absurd named List.not_mem_nil
  | .apply tasks arguments _ =>
      List.forall_mem_append.mpr
        ⟨Compound.Foreshadows.paired tasks, Bindings.Foreshadows.paired arguments⟩
  | .cond conditions thenBlocks elseBlocks => by
      refine List.forall_mem_append.mpr ⟨Compound.Foreshadows.paired conditions, ?_⟩
      exact List.forall_mem_cons.mpr
        ⟨⟨_, thenBlocks⟩, List.forall_mem_singleton.mpr ⟨_, elseBlocks⟩⟩
  | .bare arguments => Bindings.Foreshadows.paired arguments
  | .curry tasks arguments =>
      List.forall_mem_append.mpr
        ⟨Compound.Foreshadows.paired tasks, Bindings.Foreshadows.paired arguments⟩
termination_by structural alike => alike

theorem Compound.Foreshadows.paired {terms others : Compound} :
    terms.Foreshadows nothingWaits pairs others →
      ∀ block ∈ Term.blocksOfAll terms, Paired pairs block
  | .nil => fun _ named => absurd named List.not_mem_nil
  | .waiting awaits _ => awaits.of_nothing.elim
  | .alike here rest =>
      List.forall_mem_append.mpr ⟨Term.Alike.paired here, Compound.Foreshadows.paired rest⟩
termination_by structural foreshadows => foreshadows

/-- Terms that are the same up to numbers name paired blocks. -/
theorem Bindings.Foreshadows.paired {bindings others : Bindings} :
    Bindings.Foreshadows nothingWaits pairs bindings others →
      ∀ block ∈ Term.blocksOfBindings bindings, Paired pairs block
  | .nil => fun _ named => absurd named List.not_mem_nil
  | .cons value rest =>
      List.forall_mem_append.mpr
        ⟨Compound.Foreshadows.paired value, Bindings.Foreshadows.paired rest⟩
termination_by structural matches_ => matches_

end

end Pairs

end TicketFlow
