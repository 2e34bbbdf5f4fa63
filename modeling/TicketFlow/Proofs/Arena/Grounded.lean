import Mathlib.Data.Set.Insert
import TicketFlow.Proofs.Arena.Placeholders
import TicketFlow.Proofs.Evaluation.Fragment

namespace TicketFlow

/-! Terms that name nothing but certain slots of their arena.

A grounded term has no curry, and every block that it names is one of the slots.
In an arena that is grounded there so is every term bound in one of the slots,
and every parent of one of them is one as well.  Making blocks keeps an arena
grounded, with one slot more, and so does a collection, with those of the slots
that are marked: whatever a marked block refers to is marked itself.
-/

namespace Term

/-- Every block that the term names is one of the slots, and no curry stands in it. -/
inductive Grounded (slots : Set BlockId) : Term → Prop where
  | str (value : String) : Grounded slots (.str value)
  | name (name : String) : Grounded slots (.name name)
  | ticket (placeholder : Placeholder) : Grounded slots (.ticket placeholder)
  | lambda {value : Lambda} :
      (∀ native, value = .native native → native.body ∈ slots) →
      Grounded slots (.lambda value)
  | apply {task : Compound} {bindings : Bindings} {channel : Nat} {rest : Bool} :
      (∀ term ∈ task, Grounded slots term) →
      (∀ term, BoundIn bindings term → Grounded slots term) →
      Grounded slots (.apply task bindings channel rest)
  | cond {condition : Compound} {prototype : Prototype}
      {channel : Nat} {thenBlock elseBlock : BlockId} :
      (∀ term ∈ condition, Grounded slots term) → thenBlock ∈ slots → elseBlock ∈ slots →
      Grounded slots (.cond condition prototype channel thenBlock elseBlock)

/-- No curry stands in the term. -/
def Curryless (term : Term) : Prop :=
  term.Grounded Set.univ

variable {slots more : Set BlockId} {term : Term} {block : BlockId}

theorem Grounded.mono (grounded : term.Grounded slots) (within : slots ⊆ more) :
    term.Grounded more := by
  induction grounded with
  | str value => exact .str value
  | name name => exact .name name
  | ticket placeholder => exact .ticket placeholder
  | lambda body => exact .lambda fun native same => within (body native same)
  | apply _ _ task arguments => exact .apply task arguments
  | cond _ thenBlock elseBlock condition =>
      exact .cond condition (within thenBlock) (within elseBlock)

theorem mem_blocksOfAll {terms : Compound} :
    block ∈ blocksOfAll terms ↔ ∃ term ∈ terms, block ∈ term.blocks := by
  induction terms with
  | nil => simp [blocksOfAll]
  | cons term rest ih => simp [blocksOfAll, ih]

theorem mem_blocksOfBindings {bindings : Bindings} :
    block ∈ blocksOfBindings bindings ↔
      ∃ term, BoundIn bindings term ∧ block ∈ term.blocks := by
  induction bindings with
  | nil => simp [blocksOfBindings, boundIn_nil]
  | cons binding rest ih =>
      obtain ⟨name, value⟩ := binding
      simp only [blocksOfBindings, List.mem_append, mem_blocksOfAll, ih, boundIn_cons,
        or_and_right, exists_or]

/-- A grounded term is grounded wherever the blocks that it names are. -/
theorem Grounded.within (grounded : term.Grounded slots)
    (named : ∀ block ∈ term.blocks, block ∈ more) : term.Grounded more := by
  induction grounded with
  | str value => exact .str value
  | name name => exact .name name
  | ticket placeholder => exact .ticket placeholder
  | @lambda value _ =>
      refine .lambda fun native same => named native.body ?_
      rw [same]
      exact List.mem_singleton_self _
  | apply _ _ task arguments =>
      refine .apply (fun term inside => task term inside fun block among => named block ?_)
        fun term bound => arguments term bound fun block among => named block ?_
      · exact List.mem_append_left _ (mem_blocksOfAll.mpr ⟨term, inside, among⟩)
      · exact List.mem_append_right _ (mem_blocksOfBindings.mpr ⟨term, bound, among⟩)
  | cond _ _ _ condition =>
      refine .cond (fun term inside => condition term inside fun block among => named block ?_)
        (named _ ?_) (named _ ?_)
      · exact List.mem_append_left _ (mem_blocksOfAll.mpr ⟨term, inside, among⟩)
      · exact List.mem_append_right _ (by simp)
      · exact List.mem_append_right _ (by simp)

theorem Grounded.blocks (grounded : term.Grounded slots) :
    ∀ block ∈ term.blocks, block ∈ slots := by
  induction grounded with
  | str | name | ticket => exact fun block among => absurd among List.not_mem_nil
  | @lambda value body =>
      intro block among
      cases value with
      | foreign lambda => exact absurd among List.not_mem_nil
      | native native => exact List.mem_singleton.mp among ▸ body native rfl
  | apply _ _ task arguments =>
      intro block among
      rcases List.mem_append.mp among with inTask | inBindings
      · obtain ⟨term, inside, named⟩ := mem_blocksOfAll.mp inTask
        exact task term inside block named
      · obtain ⟨term, bound, named⟩ := mem_blocksOfBindings.mp inBindings
        exact arguments term bound block named
  | cond _ thenBlock elseBlock condition =>
      intro block among
      rcases List.mem_append.mp among with inCondition | branch
      · obtain ⟨term, inside, named⟩ := mem_blocksOfAll.mp inCondition
        exact condition term inside block named
      · rcases List.mem_cons.mp branch with rfl | rest
        · exact thenBlock
        · exact List.mem_singleton.mp rest ▸ elseBlock

end Term

namespace Arena

/-- These are slots of the arena, their parents are among them, and the terms that are
bound in them are grounded. -/
structure Grounded (arena : Arena) (slots : Set BlockId) : Prop where
  slot : ∀ {slot}, slot ∈ slots → slot.index < arena.slots
  parent :
    ∀ {slot block above}, slot ∈ slots → arena.block? slot = some block →
    block.parent = some above → above ∈ slots
  bound :
    ∀ {slot block term}, slot ∈ slots → arena.block? slot = some block →
    BoundIn block.bindings term → term.Grounded slots

variable {arena before after : Arena} {fresh slot : BlockId} {block : Block}
  {slots : Set BlockId}

theorem block?_of_lt (within : slot.index < arena.slots) :
    ∃ block, arena.block? slot = some block :=
  ⟨_, Array.getElem?_eq_getElem within⟩

theorem Extends.slots_le (extends_ : before.Extends after fresh block) :
    before.slots ≤ after.slots := by
  by_contra fewer
  have fresh_lt := index_lt_of_block? extends_.live.1
  have apart : (⟨after.slots⟩ : BlockId) ≠ fresh := by
    rintro rfl
    exact Nat.lt_irrefl _ fresh_lt
  obtain ⟨found, stored⟩ := @block?_of_lt before ⟨after.slots⟩ (Nat.not_le.mp fewer)
  exact Nat.lt_irrefl _ (index_lt_of_block? ((extends_.others _ apart).trans stored))

/-- A block may be made whose parent is one of the slots, and whose terms are grounded. -/
theorem Grounded.extend (grounded : before.Grounded slots)
    (extends_ : before.Extends after fresh block)
    (parent : ∀ above, block.parent = some above → above ∈ slots)
    (inside : ∀ term, BoundIn block.bindings term → term.Grounded slots) :
    after.Grounded (slots ∪ {fresh}) where
  slot among := by
    rcases among with before | rfl
    · exact Nat.lt_of_lt_of_le (grounded.slot before) extends_.slots_le
    · exact index_lt_of_block? extends_.live.1
  parent {slot _ _} among stored above := by
    refine .inl ?_
    by_cases same : slot = fresh
    · subst same
      obtain rfl := Option.some.inj (extends_.live.1.symm.trans stored)
      exact parent _ above
    · exact grounded.parent (among.resolve_right same)
        ((extends_.others slot same).symm.trans stored) above
  bound {slot _ _} among stored bound := by
    refine Term.Grounded.mono ?_ Set.subset_union_left
    by_cases same : slot = fresh
    · subst same
      obtain rfl := Option.some.inj (extends_.live.1.symm.trans stored)
      exact inside _ bound
    · exact grounded.bound (among.resolve_right same)
        ((extends_.others slot same).symm.trans stored) bound

section Collection

variable {marked : List Bool} {pending : List BlockId} {steps : Nat}
  {roots : List BlockId} {live : List Compound}

/-- Marking ends with everything marked that is pending, and that marked blocks refer to. -/
theorem closed_markPending (enough : marked.count false ≤ steps)
    (pursued : ∀ {block reference : BlockId}, marked[block.index]? = some true →
      reference ∈ arena.references block → reference.index < marked.length →
      marked[reference.index]? = some true ∨ reference ∈ pending) :
    (∀ {block reference : BlockId}, (arena.markPending steps marked pending)[block.index]? =
      some true → reference ∈ arena.references block → reference.index < marked.length →
      (arena.markPending steps marked pending)[reference.index]? = some true) ∧
      ∀ reference ∈ pending, reference.index < marked.length →
        (arena.markPending steps marked pending)[reference.index]? = some true := by
  induction steps generalizing marked pending with
  | zero =>
      have all {index : Nat}
          (within : index < marked.length) : marked[index]? = some true := by
        have none_false := List.count_eq_zero.mp (Nat.le_zero.mp enough)
        rw [List.getElem?_eq_getElem within]
        cases mark : marked[index] with
        | true => rfl
        | false => exact absurd (mark ▸ List.getElem_mem within) none_false
      exact ⟨fun _ _ within => all within, fun _ _ within => all within⟩
  | succ steps ih =>
      have skipped {reference : BlockId} (marks : isUnmarked marked reference = false)
          (within : reference.index < marked.length) :
          marked[reference.index]? = some true := by
        rw [isUnmarked, List.getElem?_eq_getElem within] at marks
        rw [List.getElem?_eq_getElem within]
        simpa using marks
      have split :=
        List.takeWhile_append_dropWhile
          (p := fun block => !isUnmarked marked block) (l := pending)
      have before {reference : BlockId}
          (among : reference ∈ pending.takeWhile fun block => !isUnmarked marked block)
          (within : reference.index < marked.length) :
            marked[reference.index]? = some true :=
        skipped (by simpa using List.mem_takeWhile_imp among) within
      unfold markPending
      split
      next nothing =>
        rw [nothing, List.append_nil] at split
        have settled {reference : BlockId} (among : reference ∈ pending)
            (within : reference.index < marked.length) :
            marked[reference.index]? = some true :=
          before (split.symm ▸ among) within
        exact ⟨fun mark refers within => (pursued mark refers within).elim id
          (settled · within), fun reference among within => settled among within⟩
      next block rest first =>
        rw [first] at split
        have mark : marked[block.index]? = some false := by
          have here :=
            List.head?_dropWhile_not (fun block => !isUnmarked marked block) pending
          rw [first] at here
          simpa [isUnmarked] using here
        have within := (List.getElem?_eq_some_iff.mp mark).1
        have set_self : (marked.set block.index true)[block.index]? = some true := by
          rw [List.getElem?_set_self within]
        have stays {index : Nat} (marks : marked[index]? = some true) :
            (marked.set block.index true)[index]? = some true := by
          by_cases same : block.index = index
          · exact same ▸ set_self
          · rwa [List.getElem?_set_ne same]
        have fewer : (marked.set block.index true).count false ≤ steps := by
          have least : 0 < marked.count false :=
            List.count_pos_iff.mpr (List.mem_of_getElem? mark)
          obtain ⟨_, here⟩ := List.getElem?_eq_some_iff.mp mark
          rw [List.count_set within, here, if_pos (by rfl), if_neg (by decide)]
          omega
        have others {reference : BlockId} (among : reference ∈ pending)
            (inside : reference.index < marked.length) :
            (marked.set block.index true)[reference.index]? = some true ∨
              reference ∈ rest := by
          rw [← split] at among
          rcases List.mem_append.mp among with earlier | later
          · exact .inl (stays (before earlier inside))
          · rcases List.mem_cons.mp later with rfl | later
            · exact .inl set_self
            · exact .inr later
        obtain ⟨closed, marks⟩ :=
          @ih (marked.set block.index true) (arena.references block ++ rest) fewer
            (fun {other reference} marks refers inside => by
            rw [List.length_set] at inside
            by_cases same : other.index = block.index
            · obtain rfl : other = block := by cases other; cases block; simpa using same
              exact .inr (List.mem_append_left _ refers)
            · rw [List.getElem?_set_ne (Ne.symm same)] at marks
              rcases pursued marks refers inside with already | among
              · exact .inl (stays already)
              · exact (others among inside).imp id (List.mem_append_right _))
        rw [List.length_set] at closed marks
        refine ⟨closed, fun reference among inside => ?_⟩
        rcases others among inside with already | later
        · exact getElem?_markPending already
        · exact marks reference (List.mem_append_right _ later) inside

variable {found : Block}

/-- Every slot that can be reached is marked, and so is whatever its block refers to. -/
theorem closed_reached {block reference : BlockId}
    (mark : (arena.reached roots live)[block.index]? = some true)
    (refers : reference ∈ arena.references block)
    (within : reference.index < arena.slots) :
    (arena.reached roots live)[reference.index]? = some true := by
  have enough : (List.replicate arena.slots false).count false ≤ arena.slots := by simp
  exact (closed_markPending enough (fun marks => by simp [List.getElem?_replicate] at marks)).1
    mark refers (by simpa using within)

theorem reached_of_mem {reference : BlockId}
    (among : reference ∈ roots ∨ reference ∈ live.flatMap Compound.blocks)
    (within : reference.index < arena.slots) :
    (arena.reached roots live)[reference.index]? = some true := by
  have enough : (List.replicate arena.slots false).count false ≤ arena.slots := by simp
  exact (closed_markPending enough (fun marks => by simp [List.getElem?_replicate] at marks)).2
    reference (List.mem_append.mpr among) (by simpa using within)

/-- Marked slots are kept as they are. -/
theorem block?_collected_of_reached (stored : arena.block? slot = some found)
    (mark : (arena.reached roots live)[slot.index]? = some true) :
    (arena.collected roots live).block? slot = some found := by
  rw [block?_collected, stored, getElem?_trimMarks mark]
  rfl

theorem index_lt_collected {reference : BlockId} (within : reference.index < arena.slots)
    (mark : (arena.reached roots live)[reference.index]? = some true) :
    reference.index < (arena.collected roots live).slots := by
  obtain ⟨_, stored⟩ := block?_of_lt within
  exact index_lt_of_block? (block?_collected_of_reached stored mark)

/-- What is kept and not emptied is marked. -/
theorem reached_of_collected
    (kept : (arena.collected roots live).block? slot = some found) :
    found = {} ∨ arena.block? slot = some found ∧
      (arena.reached roots live)[slot.index]? = some true := by
  rw [block?_collected] at kept
  obtain ⟨before, stored, rest⟩ := Option.bind_eq_some_iff.mp kept
  obtain ⟨mark, marked, rfl⟩ := Option.map_eq_some_iff.mp rest
  cases mark with
  | false => exact .inl rfl
  | true =>
      have cuts : trimMarks (arena.reached roots live) <+: arena.reached roots live :=
        trimMarks_prefix
      obtain ⟨cut, whole⟩ := cuts
      have here :
          (trimMarks (arena.reached roots live) ++ cut)[slot.index]? = some true := by
        rw [List.getElem?_append_left (List.getElem?_eq_some_iff.mp marked).1]
        exact marked
      rw [whole] at here
      exact .inr ⟨stored, here⟩

/-- A collection keeps the arena grounded, and everything that it was to keep. -/
theorem Grounded.collected (grounded : arena.Grounded slots)
    (inRoots : ∀ root ∈ roots, root ∈ slots)
    (inLive : ∀ term ∈ live.flatten, term.Grounded slots) :
    ∃ kept, (arena.collected roots live).Grounded kept ∧ (∀ root ∈ roots, root ∈ kept) ∧
      ∀ term ∈ live.flatten, term.Grounded kept := by
  let kept : Set BlockId :=
    { slot ∈ slots | (arena.reached roots live)[slot.index]? = some true }
  have refers {slot reference : BlockId} {block : Block}
      (stored : arena.block? slot = some block)
      (mark : (arena.reached roots live)[slot.index]? = some true)
      (among : reference ∈ block.references)
      (inside : reference ∈ slots) : reference ∈ kept := by
    refine ⟨inside, closed_reached mark ?_ (grounded.slot inside)⟩
    rw [references, stored]
    exact among
  refine ⟨kept, ⟨fun among => index_lt_collected (grounded.slot among.1) among.2, ?_, ?_⟩,
    fun root among =>
      ⟨inRoots root among, reached_of_mem (.inl among) (grounded.slot (inRoots root among))⟩,
    fun term inside => (inLive term inside).within fun block named => ?_⟩
  · intro slot block above among stays parent
    rcases reached_of_collected stays with rfl | ⟨stored, mark⟩
    · simp at parent
    · exact refers stored mark (List.mem_append_left _ (by simp [parent]))
        (grounded.parent among.1 stored parent)
  · intro slot block term among stays bound
    rcases reached_of_collected stays with rfl | ⟨stored, mark⟩
    · exact absurd bound boundIn_nil
    · have before := grounded.bound among.1 stored bound
      refine before.within fun other named => refers stored mark ?_ (before.blocks other named)
      exact List.mem_append_right _ (Term.mem_blocksOfBindings.mpr ⟨term, bound, named⟩)
  · have within := (inLive term inside).blocks block named
    obtain ⟨value, among, here⟩ := List.mem_flatten.mp inside
    refine ⟨within, reached_of_mem (.inr (List.mem_flatMap.mpr ⟨value, among, ?_⟩))
      (grounded.slot within)⟩
    exact Term.mem_blocksOfAll.mpr ⟨term, here, named⟩

end Collection

end Arena

end TicketFlow
