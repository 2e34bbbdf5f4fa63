import Mathlib.Data.Finset.Card
import Mathlib.Order.Monotone.Basic
import TicketFlow.Proofs.Arena.Search

namespace TicketFlow

/-! A collection keeps exactly what can be reached.

What can be reached is said without any marks: the roots, the blocks that the
terms refer to, and of each of these the parent and the blocks that its bindings
refer to.  The marks come to the same, also where blocks refer to each other in
a circle.  So whoever starts from a root or a term finds everything as it was.
-/

/-- A native lambda refers to its body, a conditional to its branches, and a term to
what its parts refer to. -/
inductive Term.RefersTo (block : BlockId) : Term → Prop where
  | body (prototype : Prototype) : RefersTo block (.lambda (.native ⟨prototype, block⟩))
  | task {task : Compound} {bindings : Bindings}
      {channel : Nat} {rest : Bool} {term : Term} :
      term ∈ task → RefersTo block term →
      RefersTo block (.apply task bindings channel rest)
  | argument {task : Compound} {bindings : Bindings}
      {channel : Nat} {rest : Bool} {term : Term} :
      BoundIn bindings term → RefersTo block term →
      RefersTo block (.apply task bindings channel rest)
  | condition {condition : Compound} {prototype : Prototype} {channel : Nat}
      {thenBlock elseBlock : BlockId} {term : Term} :
      term ∈ condition → RefersTo block term →
      RefersTo block (.cond condition prototype channel thenBlock elseBlock)
  | branch {condition : Compound} {prototype : Prototype}
      {channel : Nat} {thenBlock elseBlock : BlockId} :
      block = thenBlock ∨ block = elseBlock →
      RefersTo block (.cond condition prototype channel thenBlock elseBlock)
  | curryTask {task : Compound} {bindings : Bindings} {term : Term} :
      term ∈ task → RefersTo block term → RefersTo block (.curry (some task) bindings)
  | curryArgument {task : Option Compound} {bindings : Bindings} {term : Term} :
      BoundIn bindings term → RefersTo block term → RefersTo block (.curry task bindings)

/-- The block is a root, or a term refers to it, or it is the parent of a block that can
be reached, or a binding of such a block refers to it. -/
inductive Arena.Reachable (arena : Arena) (roots : List BlockId) (live : List Compound) :
    BlockId → Prop where
  | root {slot : BlockId} : slot ∈ roots → Reachable arena roots live slot
  | term {slot : BlockId} {terms : Compound} {term : Term} :
      terms ∈ live → term ∈ terms → term.RefersTo slot → Reachable arena roots live slot
  | parent {slot above : BlockId} {block : Block} :
      Reachable arena roots live slot → arena.block? slot = some block →
      block.parent = some above → Reachable arena roots live above
  | binding {slot other : BlockId} {block : Block} {term : Term} :
      Reachable arena roots live slot → arena.block? slot = some block →
      BoundIn block.bindings term → term.RefersTo other →
      Reachable arena roots live other

section References

variable {block : BlockId}

mutual

theorem Term.refersTo_of_mem_blocks :
    ∀ term : Term, block ∈ term.blocks → term.RefersTo block
  | .name _, named | .str _, named | .ticket _, named | .lambda (.foreign _), named =>
      absurd named List.not_mem_nil
  | .lambda (.native native), named =>
      List.mem_singleton.mp named ▸ .body native.prototype
  | .apply task bindings _ _, named => by
      rcases List.mem_append.mp named with inTask | inBindings
      · obtain ⟨term, inside, refers⟩ := refersTo_of_mem_blocksOfAll task inTask
        exact .task inside refers
      · obtain ⟨term, bound, refers⟩ :=
          refersTo_of_mem_blocksOfBindings bindings inBindings
        exact .argument bound refers
  | .cond condition _ _ thenBlock elseBlock, named => by
      rcases List.mem_append.mp named with inCondition | branch
      · obtain ⟨term, inside, refers⟩ := refersTo_of_mem_blocksOfAll condition inCondition
        exact .condition inside refers
      · exact .branch (by simpa using branch)
  | .curry none bindings, named => by
      obtain ⟨term, bound, refers⟩ := refersTo_of_mem_blocksOfBindings bindings named
      exact .curryArgument bound refers
  | .curry (some task) bindings, named => by
      rcases List.mem_append.mp named with inTask | inBindings
      · obtain ⟨term, inside, refers⟩ := refersTo_of_mem_blocksOfAll task inTask
        exact .curryTask inside refers
      · obtain ⟨term, bound, refers⟩ :=
          refersTo_of_mem_blocksOfBindings bindings inBindings
        exact .curryArgument bound refers
termination_by structural term => term

theorem Term.refersTo_of_mem_blocksOfAll :
    ∀ terms : List Term, block ∈ Term.blocksOfAll terms →
      ∃ term ∈ terms, term.RefersTo block
  | [], named => absurd named List.not_mem_nil
  | term :: rest, named => by
      rcases List.mem_append.mp named with first | later
      · exact ⟨term, List.mem_cons_self, refersTo_of_mem_blocks term first⟩
      · obtain ⟨other, inside, refers⟩ := refersTo_of_mem_blocksOfAll rest later
        exact ⟨other, List.mem_cons_of_mem _ inside, refers⟩
termination_by structural terms => terms

theorem Term.refersTo_of_mem_blocksOfBindings :
    ∀ bindings : List (String × List Term), block ∈ Term.blocksOfBindings bindings →
      ∃ term, BoundIn bindings term ∧ term.RefersTo block
  | [], named => absurd named List.not_mem_nil
  | (_, value) :: rest, named => by
      rcases List.mem_append.mp named with first | later
      · obtain ⟨term, inside, refers⟩ := refersTo_of_mem_blocksOfAll value first
        exact ⟨term, boundIn_cons.mpr (.inl inside), refers⟩
      · obtain ⟨term, bound, refers⟩ := refersTo_of_mem_blocksOfBindings rest later
        exact ⟨term, boundIn_cons.mpr (.inr bound), refers⟩
termination_by structural bindings => bindings

end

theorem Term.mem_blocks_iff {term : Term} :
    block ∈ term.blocks ↔ term.RefersTo block := by
  refine ⟨term.refersTo_of_mem_blocks, fun refers => ?_⟩
  induction refers with
  | body prototype => exact List.mem_singleton_self _
  | task inside _ ih => exact List.mem_append_left _ (mem_blocksOfAll.mpr ⟨_, inside, ih⟩)
  | argument bound _ ih =>
      exact List.mem_append_right _ (mem_blocksOfBindings.mpr ⟨_, bound, ih⟩)
  | condition inside _ ih =>
      exact List.mem_append_left _ (mem_blocksOfAll.mpr ⟨_, inside, ih⟩)
  | branch branch => exact List.mem_append_right _ (by simpa using branch)
  | curryTask inside _ ih =>
      exact List.mem_append_left _ (mem_blocksOfAll.mpr ⟨_, inside, ih⟩)
  | @curryArgument task _ _ bound _ ih =>
      have named := mem_blocksOfBindings.mpr ⟨_, bound, ih⟩
      cases task with
      | none => exact named
      | some task => exact List.mem_append_right _ named

end References

namespace Arena

variable {arena : Arena} {roots : List BlockId} {live : List Compound}
  {slot other : BlockId} {marked : List Bool} {pending : List BlockId}
  {steps more index : Nat}

section Marks

theorem reachable_start : arena.Reachable roots live slot ↔
    ∃ entry ∈ roots ++ live.flatMap Compound.blocks, arena.Reaches entry slot := by
  constructor
  · intro reachable
    induction reachable with
    | root among => exact ⟨_, List.mem_append_left _ among, .refl⟩
    | term among inside refers =>
        refine ⟨_, List.mem_append_right _ (List.mem_flatMap.mpr ⟨_, among, ?_⟩), .refl⟩
        exact Term.mem_blocksOfAll.mpr ⟨_, inside, Term.mem_blocks_iff.mpr refers⟩
    | parent _ stored above ih =>
        obtain ⟨entry, among, reaches⟩ := ih
        refine ⟨entry, among, reaches.tail ?_⟩
        rw [references, stored]
        exact List.mem_append_left _ (by simp [above])
    | binding _ stored bound refers ih =>
        obtain ⟨entry, among, reaches⟩ := ih
        refine ⟨entry, among, reaches.tail ?_⟩
        rw [references, stored]
        exact List.mem_append_right _
          (Term.mem_blocksOfBindings.mpr ⟨_, bound, Term.mem_blocks_iff.mpr refers⟩)
  · rintro ⟨entry, among, reaches⟩
    induction reaches with
    | refl =>
        rcases List.mem_append.mp among with root | named
        · exact .root root
        · obtain ⟨terms, listed, inside⟩ := List.mem_flatMap.mp named
          obtain ⟨term, here, block⟩ := Term.mem_blocksOfAll.mp inside
          exact .term listed here (Term.mem_blocks_iff.mp block)
    | @tail before _ _ refers ih =>
        cases stored : arena.block? before with
        | none => simp [references, stored] at refers
        | some block =>
            rw [references, stored] at refers
            rcases List.mem_append.mp refers with above | named
            · exact .parent ih stored (Option.mem_toList.mp above)
            · obtain ⟨term, bound, inside⟩ := Term.mem_blocksOfBindings.mp named
              exact .binding ih stored bound (Term.mem_blocks_iff.mp inside)

/-- Only pending slots are marked, and what blocks in marked slots refer to. -/
theorem mem_of_markPending (among : BlockId → Prop)
    (listed : ∀ slot ∈ pending, among slot)
    (refers : ∀ {slot other}, among slot → other ∈ arena.references slot → among other)
    (marks : ∀ {index : Nat}, marked[index]? = some true → among ⟨index⟩)
    (mark : (arena.markPending steps marked pending)[index]? = some true) :
    among ⟨index⟩ := by
  induction steps generalizing marked pending with
  | zero => exact marks mark
  | succ steps ih =>
      unfold markPending at mark
      split at mark
      · exact marks mark
      next block rest first =>
        have still : ∀ slot ∈ block :: rest, among slot := fun slot inside =>
          listed slot ((List.dropWhile_suffix _).subset (first ▸ inside))
        rw [List.forall_mem_cons] at still
        refine ih (fun slot inside => ?_) (fun {index} set => ?_) mark
        · rcases List.mem_append.mp inside with refers' | later
          · exact refers still.1 refers'
          · exact still.2 slot later
        · rw [List.getElem?_set] at set
          split at set
          next same => exact same ▸ still.1
          next => exact marks set

theorem length_reached : (arena.reached roots live).length = arena.slots := by
  rw [reached, length_markPending, List.length_replicate]

theorem getElem?_of_trimMarks {mark : Bool}
    (set : (trimMarks marked)[index]? = some mark) : marked[index]? = some mark := by
  have cuts : trimMarks marked <+: marked := trimMarks_prefix
  obtain ⟨cut, whole⟩ := cuts
  rw [← whole, List.getElem?_append_left (List.getElem?_eq_some_iff.mp set).1, set]

/-- A slot is marked exactly if it can be reached. -/
theorem reached_iff : (arena.reached roots live)[slot.index]? = some true ↔
    slot.index < arena.slots ∧ arena.Reachable roots live slot := by
  constructor
  · intro mark
    refine ⟨length_reached ▸ (List.getElem?_eq_some_iff.mp mark).1, ?_⟩
    refine mem_of_markPending (arena.Reachable roots live) (fun slot among => ?_)
      (fun {slot other} reachable refers => ?_) (fun set => ?_) mark
    · exact reachable_start.mpr ⟨slot, among, .refl⟩
    · obtain ⟨entry, among, reaches⟩ := reachable_start.mp reachable
      exact reachable_start.mpr ⟨entry, among, reaches.tail refers⟩
    · simp [List.getElem?_replicate] at set
  · rintro ⟨within, reachable⟩
    obtain ⟨entry, among, reaches⟩ := reachable_start.mp reachable
    induction reaches with
    | refl => exact reached_of_mem (List.mem_append.mp among) within
    | @tail before _ reaches refers ih =>
        have inside : before.index < arena.slots := by
          cases stored : arena.block? before with
          | none => simp [references, stored] at refers
          | some block => exact index_lt_of_block? stored
        exact closed_reached
          (ih inside (reachable_start.mpr ⟨entry, among, reaches⟩)) refers within

/-- Once every slot may have been marked, more steps mark nothing more. -/
theorem markPending_of_enough (enough : marked.count false ≤ steps) :
    arena.markPending (steps + more) marked pending =
      arena.markPending steps marked pending := by
  induction steps generalizing marked pending with
  | zero =>
      have none_left : (pending.dropWhile fun block => !isUnmarked marked block) = [] := by
        rw [List.dropWhile_eq_nil_iff]
        intro block _
        have unset : ¬marked[block.index]? = some false := fun mark =>
          List.count_eq_zero.mp (Nat.le_zero.mp enough) (List.mem_of_getElem? mark)
        simpa [isUnmarked] using unset
      cases more with
      | zero => rfl
      | succ more => simp only [markPending, none_left]
  | succ steps ih =>
      rw [Nat.add_right_comm, markPending, markPending]
      split
      · rfl
      next block rest first =>
        refine ih ?_
        have here :=
          List.head?_dropWhile_not (fun block => !isUnmarked marked block) pending
        rw [first] at here
        have mark : marked[block.index]? = some false := by simpa [isUnmarked] using here
        obtain ⟨within, unset⟩ := List.getElem?_eq_some_iff.mp mark
        have least : 0 < marked.count false :=
          List.count_pos_iff.mpr (List.mem_of_getElem? mark)
        rw [List.count_set within, unset, if_pos (by rfl), if_neg (by decide)]
        omega

end Marks

end Arena

section Placeholders

variable {output other : BlockId → String → Bool}

mutual

/-- A placeholder is found again if the blocks that the term refers to
hold at least as many. -/
theorem Term.holdsPlaceholder_mono : ∀ term : Term,
    (∀ block ∈ term.blocks, ∀ name, output block name = true → other block name = true) →
      term.holdsPlaceholder output = true → term.holdsPlaceholder other = true
  | .name _, _, holds | .str _, _, holds | .lambda _, _, holds | .ticket _,
      _, holds => holds
  | .apply task bindings _ _, within, holds => by
      simp only [holdsPlaceholder, Bool.or_eq_true] at holds ⊢
      exact holds.imp (anyHoldsPlaceholder_mono task
        fun block named => within block (List.mem_append_left _ named))
        (bindingsHoldPlaceholder_mono bindings
          fun block named => within block (List.mem_append_right _ named))
  | .cond condition prototype _ thenBlock elseBlock, within, holds => by
      have branch {block : BlockId} (named : block = thenBlock ∨ block = elseBlock)
          (found : prototype.outputs.any (output block) = true) :
          prototype.outputs.any (other block) = true := by
        rw [List.any_eq_true] at found ⊢
        obtain ⟨name, declared, holds⟩ := found
        exact ⟨name, declared,
          within block (List.mem_append_right _ (by simpa using named)) name holds⟩
      simp only [holdsPlaceholder, Bool.or_eq_true] at holds ⊢
      refine holds.imp (fun found => found.imp ?_ (branch (.inl rfl))) (branch (.inr rfl))
      exact anyHoldsPlaceholder_mono condition
        fun block named => within block (List.mem_append_left _ named)
  | .curry none bindings, within, holds =>
      bindingsHoldPlaceholder_mono bindings within holds
  | .curry (some task) bindings, within, holds => by
      simp only [holdsPlaceholder, Bool.or_eq_true] at holds ⊢
      exact holds.imp (anyHoldsPlaceholder_mono task
        fun block named => within block (List.mem_append_left _ named))
        (bindingsHoldPlaceholder_mono bindings
          fun block named => within block (List.mem_append_right _ named))
termination_by structural term => term

theorem Term.anyHoldsPlaceholder_mono : ∀ terms : List Term,
    (∀ block ∈ blocksOfAll terms, ∀ name, output block name = true → other block name = true) →
      anyHoldsPlaceholder output terms = true → anyHoldsPlaceholder other terms = true
  | [], _, holds => holds
  | term :: rest, within, holds => by
      simp only [anyHoldsPlaceholder, Bool.or_eq_true] at holds ⊢
      exact holds.imp (holdsPlaceholder_mono term fun block named =>
        within block (List.mem_append_left _ named)) (anyHoldsPlaceholder_mono rest
        fun block named => within block (List.mem_append_right _ named))
termination_by structural terms => terms

theorem Term.bindingsHoldPlaceholder_mono : ∀ bindings : List (String × List Term),
    (∀ block ∈ blocksOfBindings bindings, ∀ name, output block name = true →
      other block name = true) → bindingsHoldPlaceholder output bindings = true →
      bindingsHoldPlaceholder other bindings = true
  | [], _, holds => holds
  | (_, value) :: rest, within, holds => by
      simp only [bindingsHoldPlaceholder, Bool.or_eq_true] at holds ⊢
      exact holds.imp (anyHoldsPlaceholder_mono value fun block named =>
        within block (List.mem_append_left _ named)) (bindingsHoldPlaceholder_mono rest
        fun block named => within block (List.mem_append_right _ named))
termination_by structural bindings => bindings

end

theorem Term.anyHoldsPlaceholder_congr {terms : List Term}
    (same : ∀ block ∈ blocksOfAll terms, ∀ name, output block name = other block name) :
    anyHoldsPlaceholder output terms = anyHoldsPlaceholder other terms :=
  Bool.eq_iff_iff.mpr
    ⟨anyHoldsPlaceholder_mono terms fun block named name holds =>
      same block named name ▸ holds, anyHoldsPlaceholder_mono terms
      fun block named name holds => (same block named name).symm ▸ holds⟩

end Placeholders

namespace Arena

variable {arena : Arena} {roots : List BlockId} {live : List Compound} {slot : BlockId}
  {name : String} {steps : Nat}

section Search

/-- Every name that a block binds, with the block. -/
def bound (arena : Arena) : List (BlockId × String) :=
  arena.blocks.toList.zipIdx.flatMap
    fun entry => entry.1.bindings.map fun binding => (⟨entry.2⟩, binding.1)

theorem length_bound : arena.bound.length = arena.bindingCount := by
  have lengths : arena.blocks.toList.zipIdx.map (fun entry => entry.1.bindings.length) =
      arena.blocks.toList.map fun block => block.bindings.length := by
    rw [show (fun entry : Block × Nat => entry.1.bindings.length) =
        (fun block => block.bindings.length) ∘ Prod.fst from rfl,
      ← List.map_map, List.zipIdx_map_fst]
  simpa [bound, bindingCount, List.length_flatMap] using congrArg List.sum lengths

theorem mem_bound {value : Compound} (found : arena.output? slot name = some value) :
    (slot, name) ∈ arena.bound := by
  obtain ⟨block, stored, here⟩ := Option.bind_eq_some_iff.mp found
  refine List.mem_flatMap.mpr
    ⟨(block, slot.index), ?_, List.mem_map.mpr ⟨_, OrderedMap.mem_of_get? here, rfl⟩⟩
  rw [List.mem_zipIdx_iff_getElem?]
  simpa [block?] using stored

/-- The outputs in which a placeholder is found within so many steps. -/
def holders (arena : Arena) (steps : Nat) : Finset (BlockId × String) :=
  arena.bound.toFinset.filter fun entry => arena.outputHoldsPlaceholder steps entry.1 entry.2

theorem outputHoldsPlaceholder_succ :
    arena.outputHoldsPlaceholder (steps + 1) slot name = (arena.output? slot name).elim
      false (Term.anyHoldsPlaceholder (arena.outputHoldsPlaceholder steps)) := by
  rw [outputHoldsPlaceholder, output?]
  split
  next value found => rw [found]; rfl
  next missing => rw [missing]; rfl

theorem mem_holders :
    (slot, name) ∈ arena.holders steps ↔
      arena.outputHoldsPlaceholder steps slot name = true := by
  simp only [holders, Finset.mem_filter, List.mem_toFinset, and_iff_right_iff_imp]
  intro holds
  cases steps with
  | zero => simp [outputHoldsPlaceholder] at holds
  | succ steps =>
      rw [outputHoldsPlaceholder_succ] at holds
      cases found : arena.output? slot name with
      | none => simp [found] at holds
      | some value => exact mem_bound found

theorem holders_subset_succ : arena.holders steps ⊆ arena.holders (steps + 1) := by
  have next {slot : BlockId} {name : String}
      (holds : arena.outputHoldsPlaceholder steps slot name = true) :
      arena.outputHoldsPlaceholder (steps + 1) slot name = true := by
    induction steps generalizing slot name with
    | zero => simp [outputHoldsPlaceholder] at holds
    | succ steps ih =>
        rw [outputHoldsPlaceholder_succ] at holds ⊢
        cases found : arena.output? slot name with
        | none => simp [found] at holds
        | some value =>
            rw [found] at holds
            exact Term.anyHoldsPlaceholder_mono value (fun _ _ _ => ih) holds
  exact fun entry among => mem_holders.mpr (next (mem_holders.mp among))

theorem outputHoldsPlaceholder_eq_iff {more : Nat} :
    arena.holders more = arena.holders steps ↔
      arena.outputHoldsPlaceholder more = arena.outputHoldsPlaceholder steps := by
  refine ⟨fun same => ?_, fun same => by rw [holders, holders, same]⟩
  funext slot name
  rw [Bool.eq_iff_iff, ← mem_holders, ← mem_holders, same]

/-- As many steps as there are bindings find whatever there is to find. -/
theorem outputHoldsPlaceholder_of_le (enough : arena.bindingCount ≤ steps) :
    arena.outputHoldsPlaceholder steps = arena.outputHoldsPlaceholder arena.bindingCount := by
  have grows : Monotone arena.holders :=
    monotone_nat_of_le_succ fun _ => holders_subset_succ
  have bounded (steps : Nat) : (arena.holders steps).card ≤ arena.bindingCount :=
    (Finset.card_filter_le _ _).trans (length_bound ▸ List.toFinset_card_le _)
  -- where a step finds nothing more, no later step does
  have settles (steps : Nat)
      (same : (arena.holders steps).card = (arena.holders (steps + 1)).card) :
      (arena.holders (steps + 1)).card = (arena.holders (steps + 2)).card := by
    have equal :=
      outputHoldsPlaceholder_eq_iff.mp
        (Finset.eq_of_subset_of_card_le holders_subset_succ same.ge)
    rw [outputHoldsPlaceholder_eq_iff.mpr]
    funext slot name
    rw [outputHoldsPlaceholder_succ, outputHoldsPlaceholder_succ, equal]
  have same :=
    Nat.stabilises_of_monotone (fun _ _ le => Finset.card_le_card (grows le))
      bounded settles enough
  exact outputHoldsPlaceholder_eq_iff.mp
    (Finset.eq_of_subset_of_card_le (grows enough) same.le).symm

theorem holdsPlaceholder_of_le (enough : arena.bindingCount ≤ steps) (terms : Compound) :
    arena.holdsPlaceholder terms =
      Term.anyHoldsPlaceholder (arena.outputHoldsPlaceholder steps) terms := by
  rw [holdsPlaceholder, outputHoldsPlaceholder_of_le enough]

end Search

section Collection

variable {block : Block} {found : Option Compound}

theorem block?_collected_of_reachable (reachable : arena.Reachable roots live slot) :
    (arena.collected roots live).block? slot = arena.block? slot := by
  cases stored : arena.block? slot with
  | some block =>
      exact block?_collected_of_reached stored
        (reached_iff.mpr ⟨index_lt_of_block? stored, reachable⟩)
  | none => rw [block?_collected, stored, Option.bind_none]

theorem live_collected_iff : (arena.collected roots live).Live slot block ↔
    arena.block? slot = some block ∧ arena.Reachable roots live slot := by
  constructor
  · rintro ⟨kept, unreleased⟩
    rw [block?_collected] at kept
    obtain ⟨before, stored, rest⟩ := Option.bind_eq_some_iff.mp kept
    obtain ⟨mark, set, rfl⟩ := Option.map_eq_some_iff.mp rest
    cases mark with
    | false => exact absurd (mem_unmarkedFrom.mpr ⟨Nat.zero_le _, set⟩) unreleased
    | true => exact ⟨stored, (reached_iff.mp (getElem?_of_trimMarks set)).2⟩
  · rintro ⟨stored, reachable⟩
    have mark := reached_iff.mpr ⟨index_lt_of_block? stored, reachable⟩
    refine ⟨block?_collected_of_reached stored mark, fun released => ?_⟩
    have unset := (mem_unmarkedFrom.mp released).2
    rw [Nat.sub_zero, getElem?_trimMarks mark] at unset
    simp at unset

/-- From a block that can be reached a search takes the same way as before. -/
theorem finds_collected_iff {path : List BlockId}
    (reachable : arena.Reachable roots live slot) :
    (arena.collected roots live).Finds name slot path found ↔
      arena.Finds name slot path found := by
  constructor
  · intro finds
    induction finds with
    | here stored bound =>
        exact .here (block?_collected_of_reachable reachable ▸ stored) bound
    | nowhere stored unbound parentless =>
        exact .nowhere (block?_collected_of_reachable reachable ▸ stored) unbound parentless
    | above stored unbound parent _ ih =>
        have before := block?_collected_of_reachable reachable ▸ stored
        exact .above before unbound parent (ih (.parent reachable before parent))
  · intro finds
    induction finds with
    | here stored bound =>
        exact .here ((block?_collected_of_reachable reachable).trans stored) bound
    | nowhere stored unbound parentless =>
        exact .nowhere ((block?_collected_of_reachable reachable).trans stored)
          unbound parentless
    | above stored unbound parent _ ih =>
        exact .above ((block?_collected_of_reachable reachable).trans stored) unbound
          parent (ih (.parent reachable stored parent))

theorem outputHoldsPlaceholder_collected (reachable : arena.Reachable roots live slot) :
    (arena.collected roots live).outputHoldsPlaceholder steps slot name =
      arena.outputHoldsPlaceholder steps slot name := by
  induction steps generalizing slot name with
  | zero => rfl
  | succ steps ih =>
      have same :
          (arena.collected roots live).output? slot name = arena.output? slot name := by
        rw [output?, output?, block?_collected_of_reachable reachable]
      rw [outputHoldsPlaceholder_succ, outputHoldsPlaceholder_succ, same]
      cases found : arena.output? slot name with
      | none => rfl
      | some value =>
          refine Term.anyHoldsPlaceholder_congr fun other named name => ih ?_
          obtain ⟨block, stored, bound⟩ := Option.bind_eq_some_iff.mp found
          obtain ⟨term, inside, refers⟩ := Term.refersTo_of_mem_blocksOfAll value named
          exact .binding reachable stored ⟨_, OrderedMap.mem_of_get? bound, inside⟩ refers

theorem holdsPlaceholder_collected {terms : Compound} (among : terms ∈ live) :
    (arena.collected roots live).holdsPlaceholder terms = arena.holdsPlaceholder terms := by
  rw [holdsPlaceholder_of_le (Nat.le_max_left _ arena.bindingCount),
    holdsPlaceholder_of_le (Nat.le_max_right _ _)]
  refine Term.anyHoldsPlaceholder_congr
    fun block named name => outputHoldsPlaceholder_collected ?_
  obtain ⟨term, inside, refers⟩ := Term.refersTo_of_mem_blocksOfAll terms named
  exact .term among inside refers

theorem pairwise_unmarkedFrom {start : Nat} {marked : List Bool} :
    (unmarkedFrom start marked).Pairwise fun earlier later => earlier.index < later.index := by
  induction marked generalizing start with
  | nil => exact .nil
  | cons mark marks ih =>
      cases mark with
      | true => exact ih
      | false =>
          exact List.pairwise_cons.mpr ⟨fun slot among => (mem_unmarkedFrom.mp among).1, ih⟩

/-- No slot is left behind the last one that is marked. -/
theorem getLast?_trimMarks {marked : List Bool} {mark : Bool}
    (last : (trimMarks marked).getLast? = some mark) : mark = true := by
  rw [trimMarks, List.getLast?_reverse] at last
  have first := List.head?_dropWhile_not (fun mark => !mark) marked.reverse
  rw [last] at first
  simpa using first

theorem slots_collected :
    (arena.collected roots live).slots = (trimMarks (arena.reached roots live)).length := by
  have length {blocks : List Block} {marked : List Bool}
      (fewer : marked.length ≤ blocks.length) :
      (keepMarked blocks marked).length = marked.length := by
    induction blocks generalizing marked with
    | nil => rw [List.length_eq_zero_iff.mp (Nat.le_zero.mp fewer)]; rfl
    | cons block blocks ih =>
        cases marked with
        | nil => rfl
        | cons mark marks => simpa [keepMarked] using ih (Nat.le_of_succ_le_succ fewer)
  have fewer : (trimMarks (arena.reached roots live)).length ≤ arena.blocks.toList.length :=
    trimMarks_prefix.length_le.trans (by simp [length_reached, slots])
  simpa [slots, collected] using length fewer

end Collection

/-- The arena after is the one before without anything that cannot be reached. -/
structure KeepsReachable (before after : Arena) (roots : List BlockId)
    (live : List Compound) : Prop where
  live_iff :
    ∀ slot, (∃ block, after.Live slot block) ↔
    slot.index < before.slots ∧ before.Reachable roots live slot
  block :
    ∀ {slot}, before.Reachable roots live slot → after.block? slot = before.block? slot
  getLocal :
    ∀ {slot}, before.Reachable roots live slot →
    ∀ name, after.getLocal slot name = before.getLocal slot name
  lookup : ∀ {slot}, before.Reachable roots live slot → ∀ name found,
    after.lookup slot name = .ok found ↔ before.lookup slot name = .ok found
  placeholders :
    ∀ terms ∈ live, after.holdsPlaceholder terms = before.holdsPlaceholder terms
  ascending : after.free.Pairwise fun earlier later => earlier.index < later.index
  emptied : ∀ slot ∈ after.free, after.block? slot = some {}
  last : ∀ {slot : BlockId}, slot.index + 1 = after.slots → ∃ block, after.Live slot block

/-- A collection keeps what can be reached as it is, and nothing else; the
marking it starts with is complete after as many steps as there are slots,
whatever refers to what. -/
theorem keepsReachable_collect (arena : Arena)
    (roots : List BlockId) (live : List Compound) :
    arena.KeepsReachable (arena.collect roots live).2 roots live ∧
      ∀ steps ≥ arena.slots, arena.markPending steps (List.replicate arena.slots false)
        (roots ++ live.flatMap Compound.blocks) = arena.reached roots live := by
  have kept (slot : BlockId) : (∃ block, (arena.collected roots live).Live slot block) ↔
      slot.index < arena.slots ∧ arena.Reachable roots live slot := by
    simp only [live_collected_iff, exists_and_right]
    exact and_congr_left fun _ => ⟨fun ⟨_, stored⟩ => index_lt_of_block? stored, block?_of_lt⟩
  refine ⟨⟨kept, block?_collected_of_reachable, fun reachable name => ?_,
    fun reachable name found => ?_, fun _ => holdsPlaceholder_collected,
    pairwise_unmarkedFrom, fun _ => block?_collected_free, fun {slot} last => ?_⟩,
    fun steps enough => ?_⟩
  · rw [getLocal, getLocal, get, get, collect, block?_collected_of_reachable reachable]
  · simp only [lookup_ok_iff, collect, finds_collected_iff reachable]
  · rw [collect] at last ⊢
    rw [slots_collected] at last
    obtain ⟨mark, set⟩ : ∃ mark,
        (trimMarks (arena.reached roots live))[slot.index]? = some mark :=
      ⟨_, List.getElem?_eq_getElem (by omega)⟩
    obtain rfl :=
      getLast?_trimMarks (by rw [List.getLast?_eq_getElem?, ← last]; exact set)
    exact (kept slot).mpr (reached_iff.mp (getElem?_of_trimMarks set))
  · obtain ⟨more, rfl⟩ := Nat.exists_eq_add_of_le enough
    exact markPending_of_enough (by simp)

end Arena

end TicketFlow
