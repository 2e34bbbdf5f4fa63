import TicketFlow.Proofs.Arena.Ancestry
import TicketFlow.Proofs.Arena.Retention
import TicketFlow.Proofs.Stability.Revisit

namespace TicketFlow

/-! Passes over a context, again and again, while no more is known.

What a pass comes to is a copy of what the pass before it came to.  The blocks
that it copies are released by the collection at its end, unless something else
refers to them, so the arena does not grow.  Three things are in the way: a name
that is bound where the next pass meets it and not where it was left, an
application that is expanded once more, and a branch that two conditionals share,
of which each makes a copy of its own.
-/

variable {σ : Type} {known : TicketId → Nat → Option Compound}

namespace Arena

section Size

variable {before after : Arena} {number : BlockId → BlockId}
  {slot : BlockId} {block : Block}

/-- The slots of an arena that are not released. -/
def liveSlots (arena : Arena) : Finset BlockId :=
  ((List.range arena.slots).map BlockId.mk).toFinset \ arena.free.toFinset

theorem mem_liveSlots {arena : Arena} :
    slot ∈ arena.liveSlots ↔ ∃ block, arena.Live slot block := by
  have slots : (∃ index < arena.slots, BlockId.mk index = slot) ↔
      ∃ block, arena.block? slot = some block := by
    constructor
    · rintro ⟨index, within, rfl⟩
      exact block?_of_lt within
    · exact fun ⟨_, stored⟩ => ⟨slot.index, index_lt_of_block? stored, rfl⟩
  simp only [liveSlots, Finset.mem_sdiff, List.mem_toFinset, List.mem_map, List.mem_range,
    slots, Live, exists_and_right]

theorem Sound.card_liveSlots {arena : Arena} (sound : arena.Sound) :
    arena.liveSlots.card = arena.size := by
  have distinct : ((List.range arena.slots).map BlockId.mk).Nodup :=
    List.nodup_range.map fun _ _ same => BlockId.mk.inj same
  have within : arena.free.toFinset ⊆
      ((List.range arena.slots).map BlockId.mk).toFinset :=
    fun slot released => List.mem_toFinset.mpr (List.mem_map.mpr
      ⟨slot.index,
        List.mem_range.mpr (sound.within slot (List.mem_toFinset.mp released)), rfl⟩)
  rw [liveSlots, Finset.card_sdiff_of_subset within, List.toFinset_card_of_nodup distinct,
    List.toFinset_card_of_nodup sound.distinct, List.length_map, List.length_range, size]

/-- An arena whose live blocks are blocks of another, no two of them the
same one, is no larger. -/
theorem Sound.size_le (late : after.Sound) (early : before.Sound)
    (live : ∀ slot ∈ after.liveSlots, number slot ∈ before.liveSlots)
    (apart : Set.InjOn number after.liveSlots) : after.size ≤ before.size := by
  rw [← late.card_liveSlots, ← early.card_liveSlots]
  exact Finset.card_le_card_of_injOn number live apart

end Size

/-- A collection opens no way. -/
theorem reaches_of_collected {arena : Arena} {roots : List BlockId} {live : List Compound}
    {slot other : BlockId} (reaches : (arena.collected roots live).Reaches slot other) :
    arena.Reaches slot other := by
  refine Relation.ReflTransGen.mono (fun slot other refers => ?_) _ _ reaches
  unfold references at refers ⊢
  split at refers
  next block stored =>
    rcases block?_of_collected_some stored with rfl | ⟨before, _⟩
    · simp [Block.references, Term.blocksOfBindings] at refers
    · rwa [before]
  next => simp at refers

end Arena

section Copies

open Arena

variable {number : BlockId → BlockId} {base arena : Arena} {scope original slot : BlockId}
  {name : String} {within depth : Nat}
  {found : Option Compound} {block : Block} {copies : List Compound}
    {made : List (BlockId × BlockId)} {root : BlockId} {tour again : Tour}

/-- A term that is left under other numbers is left. -/
theorem Term.Left.of_relabel {term : Term} (left : (term.relabel number).Left known) :
    term.Left known := by
  cases term with
  | name name => exact .name name
  | str value => exact .str value
  | lambda lambda => exact .lambda lambda
  | ticket placeholder => exact left
  | apply task bindings channel rest =>
      rw [show Term.apply task bindings channel rest =
        Apply.toTerm ⟨task, bindings, channel, rest⟩ from rfl,
        Apply.relabel_toTerm] at left
      rcases Term.Left.of_apply left with kept | ⟨lambda, called⟩
      · exact .kept (Apply.kept_of_relabel kept)
      · exact .called called.of_relabel
  | cond condition prototype channel thenBlock elseBlock =>
      rw [Term.relabel_cond] at left
      cases left with
      | cond undecided declared =>
          exact .cond (by rwa [Compound.isNormal_relabel] at undecided) declared
  | curry task bindings =>
      rw [Term.relabel_curry] at left
      rcases task with _ | _ | ⟨first, _ | ⟨second, others⟩⟩
      · exact nomatch left
      · exact nomatch left
      · cases left with
        | curry open_ => exact .curry (by rwa [Term.isNormal_relabel] at open_)
      · exact .curries

/-- What is found in the copy of a scope is a copy of what is found in the scope. -/
def Arena.Echoes (number : BlockId → BlockId) (base arena : Arena)
    (original scope : BlockId) : Prop :=
  ∀ name found, base.lookup original name = .ok found →
    ∃ echo, arena.lookup scope name = .ok echo ∧ echo.map (Compound.relabel number) = found

theorem Arena.LeadsTo.echo {last : String} {others : List String}
    (leads : base.LeadsTo original last name others)
    (echoes : Echoes number base arena original scope) :
    arena.LeadsTo scope last name others := by
  have renames {name other : String}
      (renames : base.Renames original name other) : arena.Renames scope name other := by
    obtain ⟨echo, read, same⟩ := echoes name _ renames
    obtain ⟨value, rfl, copied⟩ := Option.map_eq_some_iff.mp same
    obtain ⟨term, rfl, named⟩ := List.map_eq_singleton_iff.mp copied
    obtain rfl := Term.relabel_eq_name_iff.mp named
    exact read
  induction leads with
  | back here => exact .back (renames here)
  | on here _ ih => exact .on (renames here) ih

theorem Arena.OpenWithin.echo (opens : base.OpenWithin within original name)
    (echoes : Echoes number base arena original scope) :
    arena.OpenWithin within scope name := by
  refine opens.imp (fun free => ?_)
    fun ⟨others, short, distinct, leads⟩ => ⟨others, short, distinct, leads.echo echoes⟩
  obtain ⟨echo, read, same⟩ := echoes name none free
  rwa [Option.map_eq_none_iff.mp same] at read

/-- A block that is made as a copy looks up what it does not bind where its original does. -/
theorem Arena.echoes_of_copy (stored : arena.block? scope = some block)
    (copied : base.Live original (block.relabel number))
    (above : ∀ parent, block.parent = some parent → Echoes number base arena parent parent) :
    Echoes number base arena original scope := by
  intro name found read
  obtain ⟨path, finds⟩ := lookup_ok_iff.mp read
  have parents : (block.relabel number).parent = block.parent := rfl
  have values (name : String) : (block.relabel number).get? name =
      (block.get? name).map (Compound.relabel number) :=
    OrderedMap.get?_mapValues
  cases finds with
  | @here _ found value here bound =>
      obtain rfl := Option.some.inj (copied.1.symm.trans here)
      obtain ⟨echo, bound, same⟩ :=
        Option.map_eq_some_iff.mp ((values name).symm.trans bound)
      exact ⟨some echo, lookup_ok_iff.mpr ⟨_, .here stored bound⟩, congrArg some same⟩
  | nowhere here unbound parentless =>
      obtain rfl := Option.some.inj (copied.1.symm.trans here)
      exact ⟨none, lookup_ok_iff.mpr
        ⟨_, .nowhere stored
          (Option.map_eq_none_iff.mp ((values name).symm.trans unbound)) parentless⟩, rfl⟩
  | above here unbound parent further =>
      obtain rfl := Option.some.inj (copied.1.symm.trans here)
      obtain ⟨echo, found, same⟩ := above _ parent name _ (lookup_ok_iff.mpr ⟨_, further⟩)
      obtain ⟨path, finds⟩ := lookup_ok_iff.mp found
      exact ⟨echo, lookup_ok_iff.mpr
        ⟨_, .above stored (Option.map_eq_none_iff.mp ((values name).symm.trans unbound))
          parent finds⟩, same⟩

theorem mem_blocks_flatten {targets : List Compound} :
    slot ∈ Compound.blocks targets.flatten ↔ slot ∈ targets.flatMap Compound.blocks := by
  simp only [Compound.blocks, Term.mem_blocksOfAll, List.mem_flatten, List.mem_flatMap]
  grind

theorem Arena.Tours.reachable (way : arena.Tours depth root copies.flatten tour)
    (names : tour.Names slot) : arena.Reachable [root] copies slot := by
  obtain ⟨entry, among, reaches⟩ := way.charts.reached slot names
  exact reachable_start.mpr
    ⟨entry, List.mem_append_right _ (mem_blocks_flatten.mp among), reaches⟩

/-- A collection leaves the way through the targets as it is. -/
theorem Arena.Tours.collected (way : arena.Tours depth root copies.flatten tour) :
    (arena.collected [root] copies).Tours depth root copies.flatten tour :=
  way.transport fun _ _ copied live =>
    live_collected_iff.mpr ⟨live.1, way.reachable (.inl copied)⟩

/-- The arena of a pass that came to copies, and the way through them. -/
structure Arena.Renews (base : Arena) (root : BlockId) (tour : Tour)
    (number : BlockId → BlockId) (made : List (BlockId × BlockId))
    (arena : Arena) (copies : List Compound) (again : Tour) : Prop where
  makes : base.Makes base arena made
  undoes : base.Undoes made number
  safe : base.Safe root
  named : ∀ slot, tour.Names slot → base.Safe slot
  way : ∃ depth, arena.Tours depth root copies.flatten again
  within : again.copied.Sublist (made.map Prod.fst)
  back : again.relabel number = tour

namespace Arena.Renews

variable (renews : base.Renews root tour number made arena copies again)
include renews

theorem heldAgain : again.held = tour.held := by
  rw [← renews.back]
  rfl

theorem copied (among : slot ∈ again.copied) : (slot, number slot) ∈ made := by
  obtain ⟨pair, inside, rfl⟩ := List.mem_map.mp (renews.within.subset among)
  rwa [renews.undoes.made pair inside]

theorem entered {entry : BlockId} (among : entry = root ∨ entry ∈ tour.held) :
    base.Safe entry :=
  among.elim (fun same => same ▸ renews.safe) fun held => renews.named entry (.inr held)

theorem reachable (names : again.Names slot) : arena.Reachable [root] copies slot := by
  obtain ⟨depth, way⟩ := renews.way
  exact way.reachable names

/-- Whatever can be reached is copied, or could be reached before, from the root
or from a held block. -/
theorem reached (reachable : arena.Reachable [root] copies slot) :
    slot ∈ again.copied ∨
      ∃ entry, (entry = root ∨ entry ∈ tour.held) ∧ base.Reaches entry slot := by
  have before {entry : BlockId} (among : entry = root ∨ entry ∈ tour.held)
      (reaches : arena.Reaches entry slot) : ∃ entry, (entry = root ∨ entry ∈ tour.held) ∧
      base.Reaches entry slot :=
    ⟨entry, among, renews.makes.preserves.reaches (renews.entered among) reaches⟩
  obtain ⟨entry, among, reaches⟩ := reachable_start.mp reachable
  obtain ⟨depth, way⟩ := renews.way
  rcases List.mem_append.mp among with here | there
  · exact .inr (before (.inl (List.mem_singleton.mp here)) reaches)
  · exact (way.charts.reaches (mem_blocks_flatten.mpr there) reaches).imp id
      fun ⟨held, among, reaches⟩ => before (.inr (renews.heldAgain ▸ among)) reaches

/-- A block that can be reached is a copy of a block of before, or such a block. -/
theorem live (live : (arena.collected [root] copies).Live slot block) :
    base.Live (number slot) (block.relabel number) := by
  obtain ⟨stored, reachable⟩ := live_collected_iff.mp live
  rcases renews.reached reachable with copied | ⟨entry, among, reaches⟩
  · obtain ⟨copy, live, undone⟩ := renews.makes.copies _ (renews.copied copied)
    obtain rfl := Option.some.inj (live.1.symm.trans stored)
    exact undone number renews.undoes
  · have safe := (renews.entered among).reaches reaches
    obtain ⟨before, here⟩ := safe.live
    obtain rfl := Option.some.inj ((renews.makes.preserves.live here).1.symm.trans stored)
    rwa [renews.undoes.safe safe, renews.undoes.keeps safe here]

/-- Where no branch is met twice, or referred to otherwise, no block is copied twice. -/
theorem injOn (distinct : tour.copied.Nodup)
    (apart : ∀ slot ∈ tour.copied,
      ∀ entry, entry = root ∨ entry ∈ tour.held → ¬base.Reaches entry slot) :
    Set.InjOn number (arena.collected [root] copies).liveSlots := by
  have copies : again.copied.map number = tour.copied := congrArg Tour.copied renews.back
  have mixed {first second : BlockId} (copied : first ∈ again.copied)
      (kept : ∃ entry, (entry = root ∨ entry ∈ tour.held) ∧ base.Reaches entry second)
      (same : number first = number second) : False := by
    obtain ⟨entry, among, reaches⟩ := kept
    rw [renews.undoes.safe ((renews.entered among).reaches reaches)] at same
    refine apart _ ?_ entry among (same ▸ reaches)
    rw [← copies]
    exact List.mem_map_of_mem copied
  -- copies of different blocks differ, blocks of before keep their numbers, and no copy
  -- goes back to one of these
  intro first here second there same
  obtain ⟨_, here⟩ := mem_liveSlots.mp here
  obtain ⟨_, there⟩ := mem_liveSlots.mp there
  rcases renews.reached (live_collected_iff.mp here).2 with copied | kept
  · rcases renews.reached (live_collected_iff.mp there).2 with copiedToo | keptToo
    · exact List.inj_on_of_nodup_map (copies ▸ distinct) copied copiedToo same
    · exact (mixed copied keptToo same).elim
  · rcases renews.reached (live_collected_iff.mp there).2 with copiedToo | keptToo
    · exact (mixed copiedToo kept same.symm).elim
    · obtain ⟨entry, among, reaches⟩ := kept
      obtain ⟨other, amongToo, reachesToo⟩ := keptToo
      rwa [renews.undoes.safe ((renews.entered among).reaches reaches),
        renews.undoes.safe ((renews.entered amongToo).reaches reachesToo)] at same

/-- The blocks that were made are met once each, and cannot be reached otherwise. -/
theorem apart :
    again.copied.Nodup ∧ ∀ slot ∈ again.copied, ∀ entry, entry = root ∨
      entry ∈ again.held → ¬(arena.collected [root] copies).Reaches entry slot := by
  refine ⟨renews.makes.distinct.sublist renews.within,
    fun slot copied entry among reaches => ?_⟩
  have among : entry = root ∨ entry ∈ tour.held := renews.heldAgain ▸ among
  have safe := renews.entered among
  have before := renews.makes.preserves.reaches safe (reaches_of_collected reaches)
  obtain ⟨block, live⟩ := (safe.reaches before).live
  exact renews.makes.unused _ (renews.copied copied) block live

/-- Where a block of before can be reached names stand for what they stood for. -/
theorem echoes_kept (safe : base.Safe slot)
    (reachable : arena.Reachable [root] copies slot) :
    Echoes number base (arena.collected [root] copies) slot slot := by
  intro name found read
  obtain ⟨path, finds⟩ := lookup_ok_iff.mp (renews.makes.preserves.lookup safe read)
  refine ⟨found, lookup_ok_iff.mpr ⟨path, (finds_collected_iff reachable).mpr finds⟩, ?_⟩
  cases found with
  | none => rfl
  | some value =>
      have covers := safe.lookup_covers read
      exact congrArg some
        (Compound.relabel_eq_self fun block named => renews.undoes.safe (covers block named))

theorem echoes (met : scope = root ∨ scope ∈ again.copied) :
    Echoes number base (arena.collected [root] copies) (number scope) scope := by
  rcases met with rfl | copied
  · rw [renews.undoes.safe renews.safe]
    exact renews.echoes_kept renews.safe (.root List.mem_cons_self)
  · have reachable := renews.reachable (.inl copied)
    obtain ⟨copy, live, undone⟩ := renews.makes.copies _ (renews.copied copied)
    have original := undone number renews.undoes
    have named : number scope ∈ tour.copied := by
      rw [← renews.back]
      exact List.mem_map_of_mem copied
    have safe := renews.named _ (.inl named)
    exact echoes_of_copy ((block?_collected_of_reachable reachable).trans live.1)
      original fun parent above =>
      renews.echoes_kept (safe.parent original above) (.parent reachable live.1 above)

end Arena.Renews

end Copies

section Visits

variable {base : Arena} {within more : Nat} {visit : Visit} {visits : List Visit}

theorem Visit.Rests.mono (rests : visit.Rests known within base) (le : within ≤ more) :
    visit.Rests known more base :=
  { rests with opens := fun name same => (rests.opens name same).mono le }

theorem exists_rests (each : ∀ visit ∈ visits, ∃ within, visit.Rests known within base) :
    ∃ within, ∀ visit ∈ visits, visit.Rests known within base := by
  induction visits with
  | nil => exact ⟨0, fun _ among => absurd among List.not_mem_nil⟩
  | cons visit rest ih =>
      obtain ⟨⟨first, here⟩, others⟩ := List.forall_mem_cons.mp each
      obtain ⟨later, there⟩ := ih others
      exact ⟨max first later, List.forall_mem_cons.mpr ⟨here.mono (Nat.le_max_left _ _),
        fun visit among => (there visit among).mono (Nat.le_max_right _ _)⟩⟩

theorem exists_rests_of_leavesOpen (left : visit.term.Left known)
    (opens : ∀ name, visit.term = .name name → base.LeavesOpen visit.scope name)
    (spent : ∀ apply : Apply, visit.term = apply.toTerm → apply.Spent) :
    ∃ within, visit.Rests known within base := by
  by_cases named : ∃ name, visit.term = .name name
  · obtain ⟨name, same⟩ := named
    obtain ⟨within, opens⟩ := (opens name same).openWithin
    exact ⟨within, left,
      fun other again => Term.name.inj (same.symm.trans again) ▸ opens, spent⟩
  · exact ⟨0, left, fun name same => absurd ⟨name, same⟩ named, spent⟩

/-- The copy of what rests does so too. -/
theorem Visit.Rests.echo {number : BlockId → BlockId} {arena : Arena}
    (rests : (visit.relabel number).Rests known within base)
    (echoes : Arena.Echoes number base arena (number visit.scope) visit.scope) :
    visit.Rests known within arena where
  left := rests.left.of_relabel
  opens name
    same := (rests.opens name (by rw [Visit.relabel, same, Term.relabel_name])).echo echoes
  spent apply same := Apply.spent_of_relabel
    (rests.spent _ (by rw [Visit.relabel, same, Apply.relabel_toTerm]))

end Visits

namespace Context

/-- A pass comes to the term in the scope, on its way through the targets. -/
def Meets (context : Context) (visit : Visit) : Prop :=
  ∃ depth tour, context.arena.Tours depth context.root context.current tour ∧
    visit ∈ tour.visits

/-- Every name that the next pass meets it leaves open, and nothing is left of the
applications to be expanded. -/
structure Settled (context : Context) : Prop where
  opens :
    ∀ scope name, context.Meets ⟨scope, .name name⟩ → context.arena.LeavesOpen scope name
  spent : ∀ scope (apply : Apply), context.Meets ⟨scope, apply.toTerm⟩ → apply.Spent

/-- The branches that are copied on the way are met once each, and cannot
be reached otherwise. -/
def Apart (context : Context) (tour : Tour) : Prop :=
  tour.copied.Nodup ∧ ∀ slot ∈ tour.copied,
    ∀ entry, entry = context.root ∨ entry ∈ tour.held → ¬context.arena.Reaches entry slot

/-- No branch that the next pass copies is met twice, or can be reached otherwise. -/
def Unshared (context : Context) : Prop :=
  ∀ depth tour, context.arena.Tours depth context.root context.current tour →
    context.Apart tour

/-- Under other numbers the one context is the other: the targets are the same,
and every live block is a live block of the other.  Blocks that were in use
before keep their numbers. -/
structure Folds (number : BlockId → BlockId) (after before : Context) : Prop where
  root : after.root = before.root
  targets : after.targets.map (Compound.relabel number) = before.targets
  live :
    ∀ {slot block}, after.arena.Live slot block →
    before.arena.Live (number slot) (block.relabel number)
  kept : ∀ {slot block}, before.arena.Live slot block → number slot = slot

/-- The context after passes with these sources, one after the other. -/
def repeated [TicketSource σ] (depth : Nat) (consumer : ConsumerId) (query : QueryId)
    (context : Context) (sources : List σ) : Context :=
  sources.foldl
    (fun context source => (context.reduce depth source consumer query).context) context

/-- What the next pass meets on its way was left, and is left again. -/
structure Stands (known : TicketId → Nat → Option Compound) (within depth : Nat)
    (context : Context) (tour : Tour) : Prop where
  closed : context.Closed
  toured : context.arena.Tours depth context.root context.current tour
  visits : ∀ visit ∈ tour.visits, visit.Rests known within context.arena

variable {context next : Context} {within depth more : Nat} {tour : Tour}

theorem Closed.named (closed : context.Closed)
    (toured : context.arena.Tours depth context.root context.current tour)
    {slot : BlockId}
    (names : tour.Names slot) : context.arena.Safe slot := by
  obtain ⟨entry, among, reaches⟩ := toured.charts.reached slot names
  have entered : context.Reaches entry :=
    ⟨entry, .inr (mem_blocks_flatten.mp among), .refl⟩
  intro other further
  obtain ⟨start, listed, before⟩ := entered
  exact closed.intact other ⟨start, listed, before.trans (reaches.trans further)⟩

theorem Stands.deeper (stands : context.Stands known within depth tour)
    (le : depth ≤ more) : context.Stands known within more tour :=
  { stands with toured := stands.toured.deeper le }

section Passes

variable [TicketSource σ] {source told : σ} {consumer : ConsumerId} {query : QueryId}
  (literal : TicketSource.Literal (TicketSource.Knows (σ := σ) known))
  (knows : TicketSource.Knows known source)
include literal knows

/-- A pass over a context that stands comes to a copy of it, which stands as well. -/
theorem Stands.reduce (stands : context.Stands known within depth tour)
    (consumer : ConsumerId) (query : QueryId) : ∃ after again number later,
    context.reduce (depth + within) source consumer query =
        { outcome := .ok after.current, context := after, source := later } ∧
      TicketSource.Reads source later ∧ after.Stands known within depth again ∧
      after.Apart again ∧ Folds number after context ∧
      (context.Apart tour → Set.InjOn number after.arena.liveSlots) := by
  obtain ⟨root, _⟩ := intact_iff.mp stands.closed.intact
  have rests : tour.Rests known within context.arena :=
    ⟨stands.visits, fun _ => stands.closed.named stands.toured⟩
  have revisits :
      (Pass.start consumer query source context.arena context.root).Revisits known
        context.arena context.root :=
    { knows, sound := stands.closed.free, preserves := .refl _, free := rfl,
      entered := rfl }
  obtain ⟨made, arena, later, copies, ran, reread, makes, twin⟩ :=
    copies_reduceTargets literal stands.toured rests root _ revisits
  obtain ⟨number, undoes⟩ := makes.undone (.refl _)
  obtain ⟨again, way, inside, back⟩ := twin.toured context.root
  have renews : context.arena.Renews context.root tour number made arena copies again :=
    { makes, undoes, safe := root, named := rests.safe, way := ⟨depth, way⟩,
      within := inside, back := back number undoes (undoes.safe root) }
  have reduced : context.reduce (depth + within) source consumer query =
      { outcome := .ok copies.flatten
        context :=
          { context with targets := copies, arena := arena.collected [context.root] copies }
        source := later } := by
    simp only [Context.reduce, ran]
    rfl
  have confines : context.Confines (depth + within) source consumer query :=
    stands.closed.confines literal.blockless knows
  have closed := confines.closed
  rw [reduced] at closed
  refine ⟨{ context with targets := copies, arena := arena.collected [context.root] copies },
    again, number, later, reduced, reread.reads,
    ⟨closed, way.collected, fun visit met => ?_⟩, renews.apart,
    ⟨rfl, twin.undone number undoes, renews.live, undoes.kept⟩,
    fun apart => renews.injOn apart.1 apart.2⟩
  have met' : visit.relabel number ∈ tour.visits := by
    rw [← renews.back]
    exact List.mem_map_of_mem met
  exact (stands.visits _ met').echo (renews.echoes (way.scope_of_mem visit met))

/-- What the first pass leaves stands, if names are left open and nothing
is left to be expanded. -/
theorem Closed.stands (closed : context.Closed) {result : Compound}
    (passed : context.reduce depth source consumer query =
      { outcome := .ok result, context := next, source := told })
    (settled : next.Settled) :
    TicketSource.Knows known told ∧
      ∃ within depth tour, next.Stands known within depth tour := by
  obtain ⟨root, targets⟩ := intact_iff.mp closed.intact
  have begins : (Pass.start consumer query source context.arena context.root).Enclosed
      (TicketSource.Knows known) :=
    ⟨knows, closed.free, root, fun _ among => absurd among List.not_mem_nil⟩
  have confines : context.Confines depth source consumer query :=
    closed.confines literal.blockless knows
  have still := confines.closed
  rw [passed] at still
  obtain ⟨reduced, pass, ended⟩ :=
    resting_reduceTargets literal depth context.targets _ begins targets
  rw [Context.reduce, ended.ran] at passed
  cases reduced with
  | error reason => simp at passed
  | ok copies =>
      obtain ⟨-, rfl, rfl⟩ := Passed.mk.inj passed
      obtain ⟨depth, toured⟩ := (ended.good copies rfl).toured
      obtain ⟨tour, way, left⟩ := toured context.root
      have way : (pass.arena.collected [context.root] copies).Tours depth context.root
          copies.flatten tour :=
        way.collected
      have each : ∀ visit ∈ tour.visits,
          ∃ within, visit.Rests known within (pass.arena.collected [context.root] copies) :=
        fun visit met => exists_rests_of_leavesOpen (left visit met)
          (fun name same => settled.opens visit.scope name ⟨depth, tour, way, same ▸ met⟩)
          fun apply same => settled.spent visit.scope apply ⟨depth, tour, way, same ▸ met⟩
      obtain ⟨within, visits⟩ := exists_rests each
      exact ⟨ended.enclosed.sound, within, depth, tour, still, way, visits⟩

/-- However often passes are repeated after the first one, with whatever sources
that know the same, each succeeds, asks for no ticket and comes to a copy of what
the one before it came to. -/
theorem Closed.repeats (closed : context.Closed) {result : Compound}
    (passed : context.reduce depth source consumer query =
      { outcome := .ok result, context := next, source := told })
    (settled : next.Settled) :
    TicketSource.Knows known told ∧ ∃ enough, ∀ deep ≥ enough, ∀ (sources : List σ)
      (current : σ), (∀ source ∈ sources, TicketSource.Knows known source) →
      TicketSource.Knows known current → ∃ after number later,
        (next.repeated deep consumer query sources).reduce deep current consumer query =
          { outcome := .ok after.current, context := after, source := later } ∧
        TicketSource.Reads current later ∧
        Folds number after (next.repeated deep consumer query sources) ∧
        (sources ≠ [] ∨ next.Unshared → Set.InjOn number after.arena.liveSlots ∧
          after.arena.size ≤ (next.repeated deep consumer query sources).arena.size) := by
  obtain ⟨knowsTold, within, depth, tour, stands⟩ :=
    closed.stands literal knows passed settled
  refine ⟨knowsTold, depth + within, fun deep enough sources current know knowsCurrent => ?_⟩
  obtain ⟨more, deeper, rfl⟩ : ∃ more, depth ≤ more ∧ deep = more + within :=
    ⟨deep - within, by omega, by omega⟩
  -- however often passes are repeated, the context stands, and what was
  -- made for it is not shared
  have run : ∃ tour,
      (next.repeated (more + within) consumer query sources).Stands known within more tour ∧
        (sources ≠ [] ∨ next.Unshared →
          (next.repeated (more + within) consumer query sources).Apart tour) := by
    induction sources using List.reverseRecOn with
    | nil =>
        have still := stands.deeper deeper
        exact ⟨tour, still,
          fun apart => apart.resolve_left (fun some => some rfl) more tour still.toured⟩
    | append_singleton sources last ih =>
        obtain ⟨tour, stands, _⟩ :=
          ih fun source among => know source (List.mem_append_left _ among)
        obtain ⟨after, again, number, later, reduced, _, still, apart, _⟩ :=
          stands.reduce literal (know last (by simp)) consumer query
        have step :
            next.repeated (more + within) consumer query (sources ++ [last]) = after := by
          rw [repeated, List.foldl_append]
          exact congrArg Passed.context reduced
        rw [step]
        exact ⟨again, still, fun _ => apart⟩
  obtain ⟨tour, stands, apart⟩ := run
  obtain ⟨after, again, number, later, reduced, reads, still, _, folds, distinct⟩ :=
    stands.reduce literal knowsCurrent consumer query
  refine ⟨after, number, later, reduced, reads, folds,
    fun unshared => ⟨distinct (apart unshared), ?_⟩⟩
  refine still.closed.free.size_le stands.closed.free (fun slot live => ?_)
    (distinct (apart unshared))
  obtain ⟨block, live⟩ := Arena.mem_liveSlots.mp live
  exact Arena.mem_liveSlots.mpr ⟨_, folds.live live⟩

end Passes

/-- What is met on one way through the targets is met on every way. -/
theorem settled_of_toured
    (toured : context.arena.Tours depth context.root context.current tour)
    (opens : ∀ visit ∈ tour.visits,
      ∀ name, visit.term = .name name → context.arena.LeavesOpen visit.scope name)
    (spent : ∀ visit ∈ tour.visits, ∀ apply : Apply, visit.term = apply.toTerm → apply.Spent) :
    context.Settled where
  opens _ name := fun ⟨_, _, again, met⟩ => opens _ (toured.unique again ▸ met) name rfl
  spent _ apply := fun ⟨_, _, again, met⟩ => spent _ (toured.unique again ▸ met) apply rfl

section Examples

def choicePrototype : Prototype :=
  { params := [], outputs := ["y"] }

def unfinished : Term :=
  .ticket ⟨⟨List.replicate 32 0, Digest.length_zeros⟩, 1, "y"⟩

def waitingCall : Apply where
  task := [.lambda (.foreign Store.copyTask)]
  bindings := [("x", [unfinished])]
  channel := 1

/-- A name that stands for itself, a choice that waits for a ticket, with a free name in a
branch, and a call that waits for it too. -/
def waiting : Context where
  arena := { blocks := #[{ bindings := [("f", [.name "f"])] },
    { bindings := [("y", [.name "x"])] }, { bindings := [("y", [.str "n"])] }] }
  root := ⟨0⟩
  targets := [[.name "f"],
    [.cond [unfinished] choicePrototype 1 ⟨1⟩ ⟨2⟩, waitingCall.toTerm]]

def waitingOn : Context where
  arena := {
    blocks := #[{ bindings := [("f", [.name "f"])] }, {}, {},
      { bindings := [("y", [.name "x"])] }, { bindings := [("y", [.str "n"])] }]
    free := [⟨1⟩, ⟨2⟩] }
  root := ⟨0⟩
  targets := [[.name "f"],
    [.cond [unfinished] choicePrototype 1 ⟨3⟩ ⟨4⟩, waitingCall.toTerm]]

/-- What a pass comes to is what it leaves for the next one, and a store stays as it is. -/
theorem reduce_of_ends {context : Context} {depth : Nat}
    {store : Store} {consumer : ConsumerId} {query : QueryId}
    (ends : (context.reduce depth store consumer query).outcome.toBool = true) :
    context.reduce depth store consumer query =
      { outcome := .ok (context.reduce depth store consumer query).context.current
        context := (context.reduce depth store consumer query).context
        source := store } := by
  have still := Store.source_reduce context depth store consumer query
  unfold Context.reduce at ends still ⊢
  split at ends
  next ran =>
    simp only [ran] at still
    subst still
    rfl
  next => cases ends

theorem reduce_waiting : waiting.reduce 4 (Store.shared none) ⟨1⟩ ⟨1⟩ =
    { outcome := .ok waitingOn.current, context := waitingOn,
      source := Store.shared none } := by
  have evaluated : (waiting.reduce 4 (Store.shared none) ⟨1⟩ ⟨1⟩).outcome.toBool = true ∧
      (waiting.reduce 4 (Store.shared none) ⟨1⟩ ⟨1⟩).context = waitingOn := by
    decide +kernel
  obtain ⟨ends, left⟩ := evaluated
  rw [reduce_of_ends ends, left]

def waitingTour : Tour where
  visits := [⟨⟨0⟩, .name "f"⟩, ⟨⟨0⟩, .cond [unfinished] choicePrototype 1 ⟨3⟩ ⟨4⟩⟩,
    ⟨⟨0⟩, unfinished⟩, ⟨⟨3⟩, .name "x"⟩, ⟨⟨4⟩, .str "n"⟩, ⟨⟨0⟩, waitingCall.toTerm⟩,
    ⟨⟨0⟩, .lambda (.foreign Store.copyTask)⟩, ⟨⟨0⟩, unfinished⟩]
  copied := [⟨3⟩, ⟨4⟩]

theorem toured_waitingOn :
    waitingOn.arena.Tours 2 waitingOn.root waitingOn.current waitingTour := by
  have bound {block : Block} {value : Compound} (bound : block.get? "y" = some value) :
      ∀ output ∈ choicePrototype.outputs, ∃ value, block.get? output = some value :=
    fun output declared => ⟨value, List.mem_singleton.mp declared ▸ bound⟩
  have whole : waitingOn.arena.Tours 2 waitingOn.root waitingOn.current _ :=
    .cons (.plain rfl) <| .cons
      (.cond (.cons (.plain rfl) .nil)
        (.through ⟨rfl, by decide⟩ (bound rfl) (.cons (.plain rfl) .nil))
        (.through ⟨rfl, by decide⟩ (bound rfl) (.cons (.plain rfl) .nil))) <| .cons
      (.apply (.cons (.plain rfl) .nil) (.cons (.plain rfl) .nil)) .nil
  exact whole

theorem settled_waitingOn : waitingOn.Settled := by
  refine settled_of_toured toured_waitingOn
    (fun visit met name same => ?_) fun visit met apply same => ?_
  · have named : visit = ⟨⟨0⟩, .name "f"⟩ ∨ visit = ⟨⟨3⟩, .name "x"⟩ := by
      simp only [waitingTour, List.mem_cons, List.not_mem_nil, or_false] at met
      rcases met with rfl | rfl | rfl | rfl | rfl | rfl | rfl | rfl <;>
        first | exact .inl rfl | exact .inr rfl | exact nomatch same
    rcases named with rfl | rfl <;> obtain rfl := Term.name.inj same
    · exact .inr (.single rfl)
    · exact .inl rfl
  · have called : visit.term = waitingCall.toTerm := by
      simp only [waitingTour, List.mem_cons, List.not_mem_nil, or_false] at met
      rcases met with rfl | rfl | rfl | rfl | rfl | rfl | rfl | rfl <;>
          first | rfl | exact nomatch same
    obtain rfl : apply = waitingCall := Apply.toTerm_injective (same.symm.trans called)
    exact .inl rfl

theorem unshared_waitingOn : waitingOn.Unshared := by
  intro depth tour toured
  obtain rfl := toured_waitingOn.unique toured
  refine ⟨by decide, fun slot copied entry among reaches => ?_⟩
  obtain rfl : entry = ⟨0⟩ := among.resolve_right List.not_mem_nil
  rcases Relation.ReflTransGen.cases_head reaches with rfl | ⟨next, refers, _⟩
  · exact absurd copied (by decide)
  · exact absurd refers
      (by simp [Arena.references, waitingOn, Arena.block?, Block.references,
        Term.blocksOfBindings, Term.blocksOfAll, Term.blocks])

theorem repeats_waiting :
    ∃ enough, ∀ deep ≥ enough, ∀ count, ∃ after number later,
      (waitingOn.repeated deep ⟨1⟩ ⟨1⟩ (List.replicate count (Store.shared none))).reduce
        deep (Store.shared none) ⟨1⟩ ⟨1⟩ =
      { outcome := .ok after.current, context := after, source := later } ∧
    TicketSource.Reads (Store.shared none) later ∧
    Folds number after
      (waitingOn.repeated deep ⟨1⟩ ⟨1⟩ (List.replicate count (Store.shared none))) ∧
    Set.InjOn number after.arena.liveSlots ∧
    after.arena.size ≤ (waitingOn.repeated deep ⟨1⟩ ⟨1⟩
      (List.replicate count (Store.shared none))).arena.size := by
  have closed : waiting.Closed := closed_of_whole rfl (by decide) (by decide) (by decide)
  obtain ⟨told, enough, repeats⟩ :=
    closed.repeats (Store.literal_knows fun _ _ => none)
      (fun _ _ => rfl) reduce_waiting settled_waitingOn
  refine ⟨enough, fun deep more count => ?_⟩
  obtain ⟨after, number, later, reduced, reads, folds, apart⟩ :=
    repeats deep more (List.replicate count (Store.shared none)) (Store.shared none)
      (fun source among => List.eq_of_mem_replicate among ▸ told) told
  exact ⟨after, number, later, reduced, reads, folds, apart (.inr unshared_waitingOn)⟩

/-- A name that stands for itself twice. -/
def doubled : Context where
  arena := { blocks := #[{ bindings := [("f", [.name "f", .name "f"])] }] }
  root := ⟨0⟩
  targets := [[.name "f"]]

def taskOf (params : List Param) (correlated : Bool) : Term :=
  .lambda
    (.foreign { Store.copyTask with prototype := { params, outputs := ["y"], correlated } })

/-- Two tasks in step, of which the first takes an argument whole and the second one
value of it at a time. -/
def uneven : Context where
  arena := { blocks := #[{}] }
  root := ⟨0⟩
  targets := [[.apply
    [taskOf [.plain "x", .aggregate "z", .aggregate "w"] true,
      taskOf [.plain "x", .plain "z", .aggregate "w"] false] [("x", [.str "1", .str "2"]),
      ("z", [.str "3", .str "4"]), ("w", [unfinished])] 1 false]]

/-- A choice whose condition is the choice itself. -/
def circular : Context where
  arena := {
    blocks := #[{ bindings := [("c", [.cond [.name "c"] choicePrototype 1 ⟨1⟩ ⟨2⟩])] },
      { bindings := [("y", [.str "t"])] }, { bindings := [("y", [.str "n"])] }] }
  root := ⟨0⟩
  targets := [[.name "c"]]

/-- A call for each of two values, with a choice that waits for a ticket. -/
def divided : Context where
  arena := { blocks := #[{}, { bindings := [("y", [.str "t"])] },
    { bindings := [("y", [.str "n"])] }] }
  root := ⟨0⟩
  targets := [[.apply [taskOf [.plain "x", .aggregate "z"] false]
    [("x", [.str "1", .str "2"]),
      ("z", [.cond [unfinished] choicePrototype 1 ⟨1⟩ ⟨2⟩])] 1 false]]

/-- One pass after the other over the context, with a store that has nothing, leaves these. -/
structure PassesTwice (context next after : Context) : Prop where
  closed : context.Closed
  first : context.reduce 9 (Store.shared none) ⟨1⟩ ⟨1⟩ =
    { outcome := .ok next.current, context := next, source := Store.shared none }
  second : next.reduce 9 (Store.shared none) ⟨1⟩ ⟨1⟩ =
    { outcome := .ok after.current, context := after, source := Store.shared none }

def ends (context : Context) : Bool :=
  (context.reduce 9 (Store.shared none) ⟨1⟩ ⟨1⟩).outcome.toBool

def afterPass (context : Context) : Context :=
  (context.reduce 9 (Store.shared none) ⟨1⟩ ⟨1⟩).context

theorem not_relabel_of_length {terms others : Compound}
    (longer : terms.length < others.length) :
    ¬∃ number, Compound.relabel number others = terms := by
  rintro ⟨number, same⟩
  have lengths := congrArg List.length same
  rw [List.length_map] at lengths
  omega

/-- The second pass may expand once more what is left open, and what is left of a
combination; and it may add to the arena, for a choice that it meets in itself and for a
branch that two choices share. -/
theorem passes_grow :
    (∃ next after, doubled.PassesTwice next after ∧
      ¬∃ number, Compound.relabel number after.current = next.current) ∧
      (∃ next after, uneven.PassesTwice next after ∧
        ¬∃ number, Compound.relabel number after.current = next.current) ∧
      (∃ next after, circular.PassesTwice next after ∧ next.arena.size < after.arena.size) ∧
      ∃ next after, divided.PassesTwice next after ∧ next.arena.size < after.arena.size := by
  have twice {context : Context} (closed : context.Closed) (first : context.ends = true)
      (second : context.afterPass.ends = true) :
      context.PassesTwice context.afterPass context.afterPass.afterPass :=
    ⟨closed, reduce_of_ends first, reduce_of_ends second⟩
  refine ⟨⟨_, _, twice ?_ (by decide +kernel) (by decide +kernel),
    not_relabel_of_length (by decide +kernel)⟩,
    ⟨_, _, twice ?_ (by decide +kernel) (by decide +kernel),
      not_relabel_of_length (by decide +kernel)⟩,
    ⟨_, _, twice ?_ (by decide +kernel) (by decide +kernel), by decide +kernel⟩,
    ⟨_, _, twice ?_ (by decide +kernel) (by decide +kernel), by decide +kernel⟩⟩ <;>
  exact closed_of_whole rfl (by decide) (by decide) (by decide)

end Examples

end Context

end TicketFlow
