import Mathlib.Data.Set.Function
import TicketFlow.Proofs.Lockstep.Abreast

namespace TicketFlow

/-! The result of one run from the result of the other.

Once two runs that went abreast are over, the pairs are a renumbering of blocks.  It
leaves alone whatever was in use at the start, and takes the one result, with all
that can be reached from it, to the other.
-/

variable {σ : Type} {pairs : BlockId → BlockId → Prop} {number : BlockId → BlockId}

section Numbers

open Classical in
/-- Every block that is paired gets the number of the other one. -/
noncomputable def numbering (pairs : BlockId → BlockId → Prop)
    (slot : BlockId) : BlockId :=
  if paired : Paired pairs slot then paired.choose else slot

variable {slot other : BlockId}

theorem PairedOnce.numbering_eq (once : PairedOnce pairs) (paired : pairs slot other) :
    numbering pairs slot = other := by
  have some : Paired pairs slot := ⟨other, paired⟩
  rw [numbering, dif_pos some]
  exact once.functional some.choose_spec paired

theorem numbering_of_not_paired (alone : ¬Paired pairs slot) :
    numbering pairs slot = slot :=
  dif_neg alone

/-- Blocks that mirror each other where nothing waits are the same up to numbers. -/
theorem Block.Mirrors.renumber {block found : Block}
    (mirrors : block.Mirrors nothingWaits pairs found)
    (agrees : ∀ slot other, pairs slot other → number slot = other) :
    found = block.renumber number := by
  obtain ⟨parent, bindings⟩ := block
  obtain ⟨above, others⟩ := found
  obtain ⟨parents, arguments⟩ := mirrors
  have same : above = parent.map number := by
    cases parents with
    | none => rfl
    | some paired => exact congrArg some (agrees _ _ paired).symm
  have inside : others = Term.renumberBindings number bindings :=
    Bindings.Foreshadows.renumber agrees arguments
  rw [Block.renumber, same, inside]

end Numbers

namespace Arena

variable {base left right : Arena} {terms others : Compound} {fork : Fork}
  {slot other entry : BlockId} {block : Block}

/-- The other terms are the terms with blocks renumbered, and lead to the same blocks with
the same in them.  No block that was in use at the start has another number, and no two
blocks come to have one. -/
structure Renumbers (base left right : Arena) (number : BlockId → BlockId)
    (terms others : Compound) : Prop where
  result : others = Compound.renumber number terms
  blocks : ∀ {entry slot}, entry ∈ terms.blocks → left.Reaches entry slot →
    ∃ block, left.Live slot block ∧ right.Live (number slot) (block.renumber number)
  fixed : ∀ {slot block}, base.Live slot block → number slot = slot
  injective :
    Set.InjOn number {slot | (∃ block, base.Live slot block) ∨
      ∃ entry ∈ terms.blocks, left.Reaches entry slot}

/-- A block that was not in use at the start does not get the number of one that was. -/
theorem Renumbers.fresh (renumbers : base.Renumbers left right number terms others)
    (among : entry ∈ terms.blocks) (reaches : left.Reaches entry slot)
    (unused : ∀ block, ¬base.Live slot block) (block : Block) :
    ¬base.Live (number slot) block := by
  intro live
  have same :=
    renumbers.injective (.inl ⟨block, live⟩) (.inr ⟨entry, among, reaches⟩)
      (renumbers.fixed live)
  exact unused block (same ▸ live)

theorem Abreast.stored (abreast : left.Abreast fork pairs right)
    (paired : pairs slot other) :
    ∃ block found, left.Live slot block ∧ right.Live other found ∧
      block.Mirrors nothingWaits pairs found := by
  obtain ⟨block, found, here, there, same⟩ := abreast.tallies.blocks paired
  exact ⟨block, found, here, there, same.imp (fun _ => And.right) (le_refl pairs)⟩

/-- What can be reached from a paired block is paired. -/
theorem Abreast.paired_of_reaches (abreast : left.Abreast fork pairs right)
    (paired : Paired pairs entry) (reaches : left.Reaches entry slot) :
    Paired pairs slot := by
  induction reaches with
  | refl => exact paired
  | @tail middle last _ refers ih =>
      obtain ⟨other, paired⟩ := ih
      obtain ⟨block, found, here, _, same⟩ := abreast.stored paired
      rw [here.references] at refers
      rcases List.mem_append.mp refers with above | named
      · have parents := same.parent
        rw [Option.mem_toList.mp above] at parents
        cases upper : found.parent with
        | none => simp [upper] at parents
        | some upper' => exact ⟨upper', by simpa [upper] using parents⟩
      · exact Bindings.Foreshadows.paired same.bindings last named

/-- A block that was in use at the start keeps its number. -/
theorem Abreast.numbering_eq (abreast : left.Abreast fork pairs right)
    (live : fork.base.Live slot block) : numbering pairs slot = slot := by
  by_cases paired : Paired pairs slot
  · obtain ⟨other, paired⟩ := paired
    rw [abreast.tallies.pairedOnce.numbering_eq paired]
    exact (abreast.made paired).elim (fun same => same.1.symm)
      fun made => absurd live (made.1 block)
  · exact numbering_of_not_paired paired

/-- A paired block does not get the number of another one that was in use at the start. -/
theorem Abreast.eq_of_numbering_eq (abreast : left.Abreast fork pairs right)
    (live : fork.base.Live slot block) (paired : Paired pairs other)
    (same : numbering pairs slot = numbering pairs other) : slot = other := by
  obtain ⟨twin, paired⟩ := paired
  rw [abreast.numbering_eq live, abreast.tallies.pairedOnce.numbering_eq paired] at same
  exact (abreast.made paired).elim (fun own => same.trans own.1.symm)
    fun made => absurd (same ▸ live) (made.2 block)

theorem Abreast.renumbers (abreast : left.Abreast fork pairs right)
    (tallies : terms.Tallies pairs others) :
    fork.base.Renumbers left right (numbering pairs) terms others := by
  have once : PairedOnce pairs := abreast.tallies.pairedOnce
  have agrees (slot other : BlockId)
      (paired : pairs slot other) : numbering pairs slot = other :=
    once.numbering_eq paired
  have reached {entry slot : BlockId} (among : entry ∈ terms.blocks)
      (reaches : left.Reaches entry slot) : Paired pairs slot :=
    abreast.paired_of_reaches (Compound.Foreshadows.paired tallies entry among) reaches
  refine ⟨tallies.renumber agrees, fun among reaches => ?_, abreast.numbering_eq, ?_⟩
  · obtain ⟨other, paired⟩ := reached among reaches
    obtain ⟨block, found, here, there, same⟩ := abreast.stored paired
    rw [once.numbering_eq paired]
    exact ⟨block, here, same.renumber agrees ▸ there⟩
  -- either block was in use at the start or has been reached, and then it is paired
  · rintro slot (⟨block, live⟩ | ⟨entry, among, reaches⟩) other
        (⟨found, liveTwin⟩ | ⟨entryTwin, amongTwin, reachesTwin⟩) same
    · rwa [abreast.numbering_eq live, abreast.numbering_eq liveTwin] at same
    · exact abreast.eq_of_numbering_eq live (reached amongTwin reachesTwin) same
    · exact (abreast.eq_of_numbering_eq liveTwin (reached among reaches) same.symm).symm
    · obtain ⟨twin, paired⟩ := reached among reaches
      obtain ⟨twinOther, pairedOther⟩ := reached amongTwin reachesTwin
      rw [once.numbering_eq paired, once.numbering_eq pairedOther] at same
      exact once.injective paired (same ▸ pairedOther)

end Arena

/-- The two reductions leave the same source, and both end early or come to the same up to
the numbers of blocks that were not in use at the start. -/
def SameOutcome (base : Arena) (first second : Except Halt Compound × Pass σ) : Prop :=
  second.2.source = first.2.source ∧
    match first.1, second.1 with
    | .ok result, .ok twin =>
        ∃ number, base.Renumbers first.2.arena second.2.arena number result twin
    | .error reason, .error other => reason.Alike other
    | _, _ => False

/-- Either both run out of depth or neither does. -/
theorem SameOutcome.exhausted_iff {base : Arena}
    {first second : Except Halt Compound × Pass σ}
    (same : SameOutcome base first second) :
    first.1 = .error .exhausted ↔ second.1 = .error .exhausted := by
  obtain ⟨outcome, after⟩ := first
  obtain ⟨outcomeTwin, afterTwin⟩ := second
  obtain ⟨_, related⟩ := same
  cases outcome with
  | ok _ =>
      cases outcomeTwin with
      | ok _ => simp
      | error _ => exact related.elim
  | error _ =>
      cases outcomeTwin with
      | ok _ => exact related.elim
      | error _ =>
          have alike : Halt.Alike _ _ := related
          cases alike <;> simp

theorem Concurs.sameOutcome {fork : Fork} {sound : σ → Prop}
    {first second : Except Halt Compound × Pass σ}
    (concurs : Concurs fork sound pairs Compound.Tallies first second) :
    SameOutcome fork.base first second := by
  cases concurs with
  | ok _ abreast tallies => exact ⟨abreast.source, _, abreast.arena.renumbers tallies⟩
  | error alike source => exact ⟨source, alike⟩

end TicketFlow
