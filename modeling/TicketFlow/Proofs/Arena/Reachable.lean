import Mathlib.Logic.Relation
import TicketFlow.Context
import TicketFlow.Proofs.Arena.Grounded

namespace TicketFlow

/-! What can be reached in an arena, and what of it lasts.

A block refers to its parent and to the blocks that its bindings name.  A slot
is safe if every block that can be reached from it is in use.  While blocks are
made, those in use stay as they are; so what is safe stays safe, and the same
blocks are reached from it.  A collection keeps all of them.
-/

namespace Arena

/-- Every block in use is still in use, with the parent and the bindings that it had. -/
structure Preserves (before after : Arena) : Prop where
  live : ∀ {slot block}, before.Live slot block → after.Live slot block

/-- A block leads to the blocks that it refers to, to those that they refer to, and so on. -/
def Reaches (arena : Arena) : BlockId → BlockId → Prop :=
  Relation.ReflTransGen fun slot other => other ∈ arena.references slot

/-- Every block that can be reached from the slot is in use. -/
def Safe (arena : Arena) (slot : BlockId) : Prop :=
  ∀ other, arena.Reaches slot other → ∃ block, arena.Live other block

variable {arena before middle after : Arena} {slot other fresh : BlockId} {block : Block}
  {name : String} {value : Compound}

section Making

theorem Preserves.refl (arena : Arena) : arena.Preserves arena :=
  ⟨fun live => live⟩

theorem Preserves.trans (first : before.Preserves middle)
    (second : middle.Preserves after) : before.Preserves after :=
  ⟨fun live => second.live (first.live live)⟩

theorem Extends.preserving (extends_ : before.Extends after fresh block) :
    before.Preserves after :=
  ⟨extends_.preserves⟩

/-- Whatever the released slots are, a block that is made takes no slot in use. -/
theorem preserves_insert (arena : Arena) (block : Block) :
    arena.Preserves (arena.insert block).2 ∧
      ∀ found, ¬arena.Live (arena.insert block).1 found := by
  unfold Arena.insert
  cases last : arena.free.getLast? with
  | none =>
      refine ⟨⟨fun {slot found} live => ⟨?_, live.2⟩⟩, fun found live => ?_⟩
      · have apart : slot.index ≠ arena.blocks.size :=
          Nat.ne_of_lt (index_lt_of_block? live.1)
        simpa only [block?, Array.getElem?_push, if_neg apart] using live.1
      · exact absurd (index_lt_of_block? live.1) (Nat.lt_irrefl _)
  | some released =>
      have among : released ∈ arena.free := List.mem_of_getLast? last
      refine ⟨⟨fun {slot found} live =>
        ⟨?_, fun inside => live.2 (arena.free.dropLast_subset inside)⟩⟩,
        fun found live => live.2 among⟩
      have apart : slot ≠ released := fun same => live.2 (same ▸ among)
      have distinct : released.index ≠ slot.index := Ne.symm (BlockId.index_ne apart)
      simpa only [block?, Array.getElem?_setIfInBounds_ne distinct] using live.1

theorem preserves_cloneBlock (cloned : arena.cloneBlock slot = .ok (fresh, after)) :
    arena.Preserves after ∧ ∀ found, ¬arena.Live fresh found := by
  unfold Arena.cloneBlock get at cloned
  cases stored : arena.block? slot with
  | none => simp [stored, Except.map] at cloned
  | some block =>
      simp only [stored, Except.map, Except.ok.injEq] at cloned
      have inserted := preserves_insert arena block
      rwa [cloned] at inserted

theorem preserves_alloc {parent : Option BlockId}
    (made : arena.alloc parent = .ok (fresh, after)) :
    arena.Preserves after ∧ ∀ found, ¬arena.Live fresh found := by
  have inserted (block : Block) (same : arena.insert block = (fresh, after)) :
      arena.Preserves after ∧ ∀ found, ¬arena.Live fresh found := by
    have made := preserves_insert arena block
    rwa [same] at made
  unfold Arena.alloc at made
  split at made
  · exact inserted _ (Except.ok.inj made)
  · split at made
    · exact inserted _ (Except.ok.inj made)
    · simp at made

theorem bind_others {previous : Option Compound}
    (bound : arena.bind slot name value = .ok (previous, after)) :
    after.free = arena.free ∧
      ∀ other, other ≠ slot → after.block? other = arena.block? other := by
  unfold Arena.bind get at bound
  cases stored : arena.block? slot with
  | none => simp [stored, Except.map] at bound
  | some block =>
      simp only [stored, Except.map, Except.ok.injEq, Prod.mk.injEq] at bound
      obtain ⟨_, rfl⟩ := bound
      refine ⟨rfl, fun other apart => ?_⟩
      have distinct : slot.index ≠ other.index := Ne.symm (BlockId.index_ne apart)
      simp only [block?, Array.getElem?_setIfInBounds_ne distinct]

theorem bindAll_others {bindings : Bindings}
    (bound : arena.bindAll slot bindings = .ok after) :
    after.free = arena.free ∧
      ∀ other, other ≠ slot → after.block? other = arena.block? other := by
  induction bindings generalizing arena with
  | nil => exact Except.ok.inj bound ▸ ⟨rfl, fun _ _ => rfl⟩
  | cons binding rest ih =>
      obtain ⟨name, value⟩ := binding
      unfold Arena.bindAll at bound
      split at bound
      next previous next first =>
        obtain ⟨sameFree, sameBlocks⟩ := bind_others first
        obtain ⟨free, blocks⟩ := ih bound
        exact ⟨free.trans sameFree,
          fun other apart => (blocks other apart).trans (sameBlocks other apart)⟩
      next => simp at bound

/-- Names may be bound in a slot that was not in use before. -/
theorem Preserves.bindAll {bindings : Bindings} (preserves : before.Preserves arena)
    (unused : ∀ found, ¬before.Live fresh found)
    (bound : arena.bindAll fresh bindings = .ok after) : before.Preserves after := by
  refine ⟨fun {slot block} live => ?_⟩
  obtain ⟨free, blocks⟩ := bindAll_others bound
  have apart : slot ≠ fresh := fun same => unused block (same ▸ live)
  have still := preserves.live live
  exact ⟨(blocks slot apart).trans still.1, free ▸ still.2⟩

end Making

section Reaching

theorem Live.references (live : arena.Live slot block) :
    arena.references slot = block.references := by
  rw [Arena.references, live.1]

theorem Safe.live (safe : arena.Safe slot) : ∃ block, arena.Live slot block :=
  safe slot .refl

theorem Safe.reaches (safe : arena.Safe slot) (reaches : arena.Reaches slot other) :
    arena.Safe other :=
  fun last further => safe last (reaches.trans further)

theorem Safe.refers (safe : arena.Safe slot) (live : arena.Live slot block)
    (among : other ∈ block.references) : arena.Safe other :=
  safe.reaches (.single (live.references ▸ among))

/-- A block in use that refers to safe slots only is safe. -/
theorem Live.safe (live : arena.Live slot block)
    (inside : ∀ other ∈ block.references, arena.Safe other) : arena.Safe slot := by
  intro last reaches
  obtain same | ⟨next, refers, further⟩ := Relation.ReflTransGen.cases_head reaches
  · exact ⟨block, same ▸ live⟩
  · exact inside next (live.references ▸ refers) last further

/-- From a safe slot the same blocks are reached as before. -/
theorem Preserves.reaches (preserves : before.Preserves after) (safe : before.Safe slot)
    (reaches : after.Reaches slot other) : before.Reaches slot other := by
  induction reaches with
  | refl => exact .refl
  | tail _ refers ih =>
      obtain ⟨block, live⟩ := safe _ ih
      rw [(preserves.live live).references, ← live.references] at refers
      exact ih.tail refers

theorem Preserves.safe (preserves : before.Preserves after) (safe : before.Safe slot) :
    after.Safe slot := by
  intro other reaches
  obtain ⟨block, live⟩ := safe other (preserves.reaches safe reaches)
  exact ⟨block, preserves.live live⟩

end Reaching

section Terms

/-- Every block that the terms name is safe. -/
def Covers (arena : Arena) (terms : Compound) : Prop :=
  ∀ block ∈ terms.blocks, arena.Safe block

/-- Every block that the arguments name is safe. -/
def CoversAll (arena : Arena) (bindings : Bindings) : Prop :=
  ∀ block ∈ Term.blocksOfBindings bindings, arena.Safe block

variable {term : Term} {terms others : Compound} {bindings rest : Bindings}

theorem Preserves.covers (preserves : before.Preserves after)
    (covers : before.Covers terms) : after.Covers terms :=
  fun block named => preserves.safe (covers block named)

theorem Preserves.coversAll (preserves : before.Preserves after)
    (covers : before.CoversAll bindings) : after.CoversAll bindings :=
  fun block named => preserves.safe (covers block named)

theorem covers_iff :
    arena.Covers terms ↔ ∀ term ∈ terms, ∀ block ∈ term.blocks, arena.Safe block := by
  constructor
  · exact fun covers term inside block named =>
      covers block (Term.mem_blocksOfAll.mpr ⟨term, inside, named⟩)
  · intro covers block named
    obtain ⟨term, inside, among⟩ := Term.mem_blocksOfAll.mp named
    exact covers term inside block among

theorem coversAll_iff :
    arena.CoversAll bindings ↔
      ∀ term, BoundIn bindings term → ∀ block ∈ term.blocks, arena.Safe block := by
  constructor
  · exact fun covers term bound block named =>
      covers block (Term.mem_blocksOfBindings.mpr ⟨term, bound, named⟩)
  · intro covers block named
    obtain ⟨term, bound, among⟩ := Term.mem_blocksOfBindings.mp named
    exact covers term bound block among

theorem covers_nil : arena.Covers [] :=
  fun _ named => absurd named List.not_mem_nil

theorem covers_append :
    arena.Covers (terms ++ others) ↔ arena.Covers terms ∧ arena.Covers others := by
  simp only [covers_iff, List.forall_mem_append]

theorem covers_singleton :
    arena.Covers [term] ↔ ∀ block ∈ term.blocks, arena.Safe block := by
  simp only [covers_iff, List.forall_mem_singleton]

theorem coversAll_nil : arena.CoversAll [] :=
  fun _ named => absurd named List.not_mem_nil

theorem coversAll_cons :
    arena.CoversAll ((name, value) :: rest) ↔
      arena.Covers value ∧ arena.CoversAll rest := by
  simp only [CoversAll, Covers, Compound.blocks, Term.blocksOfBindings,
    List.forall_mem_append]

theorem covers_apply {apply : Apply} :
    arena.Covers [apply.toTerm] ↔
      arena.Covers apply.task ∧ arena.CoversAll apply.bindings := by
  rw [covers_singleton]
  exact List.forall_mem_append

theorem covers_cond {cond : Cond} :
    arena.Covers [cond.toTerm] ↔
      arena.Covers cond.condition ∧ arena.Safe cond.thenBlock ∧
        arena.Safe cond.elseBlock := by
  rw [covers_singleton]
  simp [Cond.toTerm, Term.blocks, Covers, Compound.blocks, or_imp, forall_and]

theorem covers_curry {task : Compound} :
    arena.Covers [.curry (some task) bindings] ↔
      arena.Covers task ∧ arena.CoversAll bindings := by
  rw [covers_singleton]
  exact List.forall_mem_append

theorem covers_native {native : NativeLambda} :
    arena.Covers [.lambda (.native native)] ↔ arena.Safe native.body := by
  simp only [covers_singleton, Term.blocks, List.forall_mem_singleton]

theorem covers_of_forall (plain : ∀ term ∈ terms, term.blocks = []) :
    arena.Covers terms :=
  covers_iff.mpr fun term inside block named => by simp [plain term inside] at named

/-- What a safe block binds names safe blocks only. -/
theorem Safe.coversAll (safe : arena.Safe slot) (live : arena.Live slot block) :
    arena.CoversAll block.bindings :=
  fun _ named => safe.refers live (List.mem_append_right _ named)

theorem Safe.covers (safe : arena.Safe slot) (live : arena.Live slot block)
    (found : block.get? name = some value) : arena.Covers value :=
  covers_iff.mpr fun term inside =>
    coversAll_iff.mp (safe.coversAll live) term ⟨_, OrderedMap.mem_of_get? found, inside⟩

theorem Safe.parent {above : BlockId} (safe : arena.Safe slot)
    (live : arena.Live slot block) (parent : block.parent = some above) :
    arena.Safe above :=
  safe.refers live (List.mem_append_left _ (by simp [parent]))

/-- A new block is safe if its parent is, and its bindings name safe blocks only. -/
theorem Extends.safe (extends_ : before.Extends after fresh block)
    (parent : ∀ above, block.parent = some above → before.Safe above)
    (covers : before.CoversAll block.bindings) : after.Safe fresh := by
  refine extends_.live.safe fun other among => extends_.preserving.safe ?_
  rcases List.mem_append.mp among with above | named
  · exact parent other (Option.mem_toList.mp above)
  · exact covers other named

/-- So is one in which names have been bound anew, to terms that name safe blocks only. -/
theorem Extends.safe_rebind
    (extends_ : before.Extends after fresh (block.rebind bindings))
    (parent : ∀ above, block.parent = some above → before.Safe above)
    (covers : before.CoversAll block.bindings) (bound : before.CoversAll bindings) :
    after.Safe fresh := by
  refine extends_.safe parent (coversAll_iff.mpr fun term ⟨entry, member, inside⟩ => ?_)
  rcases Block.mem_rebind member with new | old
  · exact coversAll_iff.mp bound term ⟨entry, new, inside⟩
  · exact coversAll_iff.mp covers term ⟨entry, old, inside⟩

end Terms

section Collection

variable {roots : List BlockId} {live : List Compound} {entry : BlockId}

/-- Whatever is reached from safe entries is marked, hence kept as it is. -/
theorem reached_of_reaches (safe : arena.Safe entry)
    (mark : (arena.reached roots live)[entry.index]? = some true)
    (reaches : arena.Reaches entry other) :
    (arena.reached roots live)[other.index]? = some true := by
  induction reaches with
  | refl => exact mark
  | tail before refers ih =>
      obtain ⟨block, found⟩ := safe _ (before.tail refers)
      exact closed_reached ih refers (index_lt_of_block? found.1)

theorem Live.collected (found : arena.Live slot block)
    (mark : (arena.reached roots live)[slot.index]? = some true) :
    (arena.collected roots live).Live slot block := by
  refine ⟨block?_collected_of_reached found.1 mark, fun released => ?_⟩
  have unset := (mem_unmarkedFrom.mp released).2
  rw [Nat.sub_zero, getElem?_trimMarks mark] at unset
  simp at unset

/-- What is safe and to be kept is safe after a collection. -/
theorem Safe.collected (safe : arena.Safe entry)
    (kept : entry ∈ roots ∨ entry ∈ live.flatMap Compound.blocks) :
    (arena.collected roots live).Safe entry := by
  obtain ⟨block, found⟩ := safe.live
  have mark := reached_of_mem kept (index_lt_of_block? found.1)
  -- along every way from the entry the blocks are those of before, so
  -- the way was there before
  have before {other : BlockId}
      (reaches : (arena.collected roots live).Reaches entry other) :
      arena.Reaches entry other := by
    induction reaches with
    | refl => exact .refl
    | tail _ refers ih =>
        obtain ⟨block, found⟩ := safe _ ih
        rw [(found.collected (reached_of_reaches safe mark ih)).references,
          ← found.references] at refers
        exact ih.tail refers
  intro other reaches
  obtain ⟨block, found⟩ := safe other (before reaches)
  exact ⟨block, found.collected (reached_of_reaches safe mark (before reaches))⟩

end Collection

end Arena

namespace Context

/-- The block can be reached from the root or from a target. -/
def Reaches (context : Context) (block : BlockId) : Prop :=
  ∃ entry, (entry = context.root ∨ entry ∈ context.targets.flatMap Compound.blocks) ∧
    context.arena.Reaches entry block

/-- Every block that can be reached is in range and not released. -/
def Intact (context : Context) : Prop :=
  ∀ block, context.Reaches block → ∃ found, context.arena.Live block found

/-- The released slots are slots, each listed once, and every block that can
be reached is in use. -/
structure Closed (context : Context) : Prop where
  free : context.arena.Sound
  intact : context.Intact

variable {context : Context}

theorem intact_iff :
    context.Intact ↔ context.arena.Safe context.root ∧
      ∀ target ∈ context.targets, context.arena.Covers target := by
  constructor
  · refine fun intact => ⟨fun block reaches => intact block ⟨_, .inl rfl, reaches⟩, ?_⟩
    exact fun target among entry named block reaches =>
      intact block ⟨entry, .inr (List.mem_flatMap.mpr ⟨target, among, named⟩), reaches⟩
  · rintro ⟨root, targets⟩ block ⟨entry, rfl | named, reaches⟩
    · exact root block reaches
    · obtain ⟨target, among, inside⟩ := List.mem_flatMap.mp named
      exact targets target among entry inside block reaches

/-- Where nothing is released and all references are slots, everything is in use. -/
theorem closed_of_whole (whole : context.arena.free = [])
    (inside : ∀ block ∈ context.arena.blocks.toList, ∀ other ∈ block.references,
      other.index < context.arena.slots) (root : context.root.index < context.arena.slots)
    (targets : ∀ block ∈ context.targets.flatMap Compound.blocks,
      block.index < context.arena.slots) : context.Closed where
  free := ⟨whole ▸ List.nodup_nil,
    fun _ released => absurd released (whole ▸ List.not_mem_nil)⟩
  intact block := by
    intro ⟨entry, listed, reaches⟩
    have slot : block.index < context.arena.slots := by
      induction reaches with
      | refl => exact listed.elim (· ▸ root) (targets entry)
      | tail _ refers ih =>
          obtain ⟨found, stored⟩ := Arena.block?_of_lt ih
          rw [Arena.references, stored] at refers
          exact inside found (Array.mem_toList_iff.mpr (Array.mem_of_getElem? stored)) _ refers
    obtain ⟨found, stored⟩ := Arena.block?_of_lt slot
    exact ⟨found, stored, whole ▸ List.not_mem_nil⟩

/-- The root and the targets lead to slots of the arena, and no curry stands
there or in the targets. -/
structure Grounded (context : Context) : Prop where
  slot : ∀ {block}, context.Reaches block → block.index < context.arena.slots
  bound :
    ∀ {block found term}, context.Reaches block →
    context.arena.block? block = some found → BoundIn found.bindings term → term.Curryless
  targets : ∀ term ∈ context.current, term.Curryless

/-- Without curries, a context without dangling block ids is grounded. -/
theorem Closed.grounded (closed : context.Closed)
    (bound : ∀ {block found term}, context.Reaches block → context.arena.block? block =
      some found → BoundIn found.bindings term → term.Curryless)
    (targets : ∀ term ∈ context.current, term.Curryless) : context.Grounded where
  slot reaches := by
    obtain ⟨found, live⟩ := closed.intact _ reaches
    exact Arena.index_lt_of_block? live.1
  bound := bound
  targets := targets

theorem mem_blocks_targets {entry : BlockId} :
    entry ∈ context.targets.flatMap Compound.blocks ↔
      ∃ term ∈ context.current, entry ∈ term.blocks := by
  simp only [current, List.mem_flatMap, List.mem_flatten, Compound.blocks,
    Term.mem_blocksOfAll]
  exact ⟨fun ⟨target, among, term, inside, named⟩ => ⟨term, ⟨target, among, inside⟩, named⟩,
    fun ⟨term, ⟨target, among, inside⟩, named⟩ => ⟨target, among, term, inside, named⟩⟩

/-- What a grounded context leads to stays among any slots in which it is grounded. -/
theorem grounded_iff :
    context.Grounded ↔ ∃ slots, context.arena.Grounded slots ∧ context.root ∈ slots ∧
      ∀ term ∈ context.current, term.Grounded slots := by
  constructor
  · intro grounded
    have further {slot other : BlockId} {block : Block} (reaches : context.Reaches slot)
        (stored : context.arena.block? slot = some block)
        (refers : other ∈ block.references) : context.Reaches other := by
      obtain ⟨entry, listed, before⟩ := reaches
      refine ⟨entry, listed, before.tail ?_⟩
      rw [Arena.references, stored]
      exact refers
    refine ⟨{ block | context.Reaches block },
      ⟨grounded.slot, fun reaches stored parent => ?_, fun reaches stored bound => ?_⟩,
      ⟨_, .inl rfl, .refl⟩, fun term inside => ?_⟩
    · exact further reaches stored (List.mem_append_left _ (by simp [parent]))
    · refine (grounded.bound reaches stored bound).within
        fun other named => further reaches stored ?_
      exact List.mem_append_right _ (Term.mem_blocksOfBindings.mpr ⟨_, bound, named⟩)
    · refine (grounded.targets term inside).within fun other named => ?_
      exact ⟨other, .inr (mem_blocks_targets.mpr ⟨term, inside, named⟩), .refl⟩
  · rintro ⟨slots, arena, root, targets⟩
    have inside {block : BlockId} (reaches : context.Reaches block) : block ∈ slots := by
      obtain ⟨entry, listed, before⟩ := reaches
      induction before with
      | refl =>
          rcases listed with rfl | named
          · exact root
          · obtain ⟨term, among, here⟩ := mem_blocks_targets.mp named
            exact (targets term among).blocks entry here
      | @tail slot other _ refers ih =>
          obtain ⟨block, stored⟩ := Arena.block?_of_lt (arena.slot ih)
          rw [Arena.references, stored] at refers
          rcases List.mem_append.mp refers with above | named
          · exact arena.parent ih stored (by simpa using above)
          · obtain ⟨term, bound, here⟩ := Term.mem_blocksOfBindings.mp named
            exact (arena.bound ih stored bound).blocks other here
    exact ⟨fun reaches => arena.slot (inside reaches),
      fun reaches stored bound =>
        (arena.bound (inside reaches) stored bound).mono (Set.subset_univ _),
      fun term among => (targets term among).mono (Set.subset_univ _)⟩

end Context

end TicketFlow
