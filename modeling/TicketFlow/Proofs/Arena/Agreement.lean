import TicketFlow.Proofs.Arena.Reachable

namespace TicketFlow.Arena

/-! Arenas that differ in released slots only.

What a released slot holds makes no difference: a block is made in the same slot
and found in it, a search from a safe slot finds the same, and a collection
keeps the same blocks.
-/

/-- The same slots, the same of them released, and the same blocks in the others. -/
structure Agrees (left right : Arena) : Prop where
  slots : right.slots = left.slots
  free : right.free = left.free
  blocks : ∀ slot, slot ∉ left.free → right.block? slot = left.block? slot

variable {left right after : Arena} {slot : BlockId} {block : Block} {name : String}
  {value : Compound}

theorem Agrees.refl (arena : Arena) : arena.Agrees arena :=
  ⟨rfl, rfl, fun _ _ => rfl⟩

theorem Agrees.live (agrees : left.Agrees right) (live : left.Live slot block) :
    right.Live slot block :=
  ⟨(agrees.blocks slot live.2).trans live.1, agrees.free ▸ live.2⟩

section Making

/-- The slot released last is the same, and what it held is gone. -/
theorem Agrees.insert (agrees : left.Agrees right) (block : Block) :
    (right.insert block).1 = (left.insert block).1 ∧
      (left.insert block).2.Agrees (right.insert block).2 := by
  have sizes : right.blocks.size = left.blocks.size := agrees.slots
  unfold Arena.insert
  rw [agrees.free]
  cases last : left.free.getLast? with
  | none =>
      rw [List.getLast?_eq_none_iff] at last
      refine ⟨by simp only [agrees.slots],
        ⟨by simp [Arena.slots, sizes], rfl, fun slot _ => ?_⟩⟩
      have before : right.blocks[slot.index]? = left.blocks[slot.index]? :=
        agrees.blocks slot (last ▸ List.not_mem_nil)
      simp only [block?, Array.getElem?_push, sizes, before]
  | some released =>
      refine ⟨rfl, ⟨by simp [Arena.slots, sizes], rfl, fun slot kept => ?_⟩⟩
      by_cases same : released.index = slot.index
      · simp only [block?, same, Array.getElem?_setIfInBounds_self, sizes]
      · have elsewhere : slot ∉ left.free := by
          rw [← List.dropLast_append_getLast? released last, List.mem_append,
            List.mem_singleton]
          exact fun among =>
            among.elim kept fun here => same (congrArg BlockId.index here.symm)
        simp only [block?, Array.getElem?_setIfInBounds_ne same]
        exact agrees.blocks slot elsewhere

theorem Agrees.bind {previous : Option Compound}
    (agrees : left.Agrees right) (live : left.Live slot block)
    (bound : left.bind slot name value = .ok (previous, after)) :
    (∃ found, after.Live slot found) ∧
      ∃ twin, right.bind slot name value = .ok (previous, twin) ∧ after.Agrees twin := by
  have sizes : right.blocks.size = left.blocks.size := agrees.slots
  have within : slot.index < left.blocks.size := index_lt_of_block? live.1
  rw [Arena.bind, get_ok live.1] at bound
  rw [Arena.bind, get_ok (agrees.live live).1]
  simp only [Except.map, Except.ok.injEq, Prod.mk.injEq] at bound ⊢
  obtain ⟨rfl, rfl⟩ := bound
  refine ⟨⟨_, by rw [block?, Array.getElem?_setIfInBounds_self_of_lt within], live.2⟩, _,
    ⟨rfl, rfl⟩, ⟨by simp [Arena.slots, sizes], agrees.free, fun other kept => ?_⟩⟩
  by_cases same : slot.index = other.index
  · simp only [block?, same, Array.getElem?_setIfInBounds_self, sizes]
  · simp only [block?, Array.getElem?_setIfInBounds_ne same]
    exact agrees.blocks other kept

theorem Agrees.bindAll {bindings : Bindings} (agrees : left.Agrees right)
    (live : left.Live slot block) (bound : left.bindAll slot bindings = .ok after) :
    ∃ twin, right.bindAll slot bindings = .ok twin ∧ after.Agrees twin := by
  induction bindings generalizing left right block with
  | nil => exact ⟨right, rfl, Except.ok.inj bound ▸ agrees⟩
  | cons binding rest ih =>
      obtain ⟨name, value⟩ := binding
      unfold Arena.bindAll at bound
      split at bound
      next previous next first =>
        obtain ⟨⟨_, stored⟩, twin, again, still⟩ := agrees.bind live first
        obtain ⟨final, rebound, whole⟩ := ih still stored bound
        exact ⟨final, by rw [Arena.bindAll, again]; exact rebound, whole⟩
      next => simp at bound

end Making

section Looking

theorem Agrees.get (agrees : left.Agrees right) (safe : left.Safe slot) :
    ∃ block, left.Live slot block ∧ left.get slot = .ok block ∧
      right.get slot = .ok block := by
  obtain ⟨block, live⟩ := safe.live
  exact ⟨block, live, get_ok live.1, get_ok (agrees.live live).1⟩

theorem Agrees.getLocal (agrees : left.Agrees right) (safe : left.Safe slot) :
    right.getLocal slot name = left.getLocal slot name := by
  obtain ⟨block, _, here, there⟩ := agrees.get safe
  rw [Arena.getLocal, Arena.getLocal, here, there]

theorem Agrees.lookupWithin (agrees : left.Agrees right)
    (safe : left.Safe slot) (steps : Nat) :
    right.lookupWithin name steps slot = left.lookupWithin name steps slot := by
  induction steps generalizing slot with
  | zero => rfl
  | succ steps ih =>
      obtain ⟨block, live, here, there⟩ := agrees.get safe
      simp only [Arena.lookupWithin, here, there]
      cases block.get? name with
      | some value => rfl
      | none =>
          cases parent : block.parent with
          | none => rfl
          | some above => exact ih (safe.parent live parent)

theorem Agrees.lookup (agrees : left.Agrees right) (safe : left.Safe slot) :
    right.lookup slot name = left.lookup slot name := by
  obtain ⟨block, live⟩ := safe.live
  simp only [Arena.lookup, live.1,
    (agrees.live live).1, agrees.slots, agrees.lookupWithin safe]

/-- From a safe slot, the only fault of a search is that it does not end. -/
theorem Safe.lookupWithin_error (safe : left.Safe slot) {steps : Nat}
    {fault : Fault} (failed : left.lookupWithin name steps slot = .error fault) :
    ∃ block, fault = .endlessChain block := by
  induction steps generalizing slot with
  | zero => exact ⟨slot, (Except.error.inj failed).symm⟩
  | succ steps ih =>
      obtain ⟨block, live⟩ := safe.live
      simp only [Arena.lookupWithin, get_ok live.1] at failed
      split at failed
      · simp at failed
      · split at failed
        next above parent => exact ih (safe.parent live parent) failed
        next => simp at failed

theorem Safe.lookup_error (safe : left.Safe slot) {fault : Fault}
    (failed : left.lookup slot name = .error fault) :
    ∃ block, fault = .endlessChain block := by
  obtain ⟨block, live⟩ := safe.live
  simp only [Arena.lookup, live.1] at failed
  exact safe.lookupWithin_error failed

/-- What a search from a safe slot finds names safe slots only. -/
theorem Safe.lookupWithin_covers (safe : left.Safe slot) {steps : Nat}
    (found : left.lookupWithin name steps slot = .ok (some value)) :
    left.Covers value := by
  induction steps generalizing slot with
  | zero => simp [Arena.lookupWithin] at found
  | succ steps ih =>
      obtain ⟨block, live⟩ := safe.live
      simp only [Arena.lookupWithin, get_ok live.1] at found
      cases bound : block.get? name with
      | some here =>
          simp only [bound, Except.ok.injEq, Option.some.injEq] at found
          exact found ▸ safe.covers live bound
      | none =>
          simp only [bound] at found
          split at found
          next above parent => exact ih (safe.parent live parent) found
          next => simp at found

theorem Safe.lookup_covers (safe : left.Safe slot)
    (found : left.lookup slot name = .ok (some value)) : left.Covers value := by
  obtain ⟨block, live⟩ := safe.live
  simp only [Arena.lookup, live.1] at found
  exact safe.lookupWithin_covers found

end Looking

section Collection

variable {roots : List BlockId} {live : List Compound} {marked : List Bool}
  {pending : List BlockId} {steps index : Nat}

/-- From safe slots only safe slots are marked, and in both arenas the same ones. -/
theorem Agrees.markPending (agrees : left.Agrees right)
    (safe : ∀ slot ∈ pending, left.Safe slot)
    (marks : ∀ index, marked[index]? = some true → left.Safe ⟨index⟩) :
    right.markPending steps marked pending = left.markPending steps marked pending ∧
      ∀ index, (left.markPending steps marked pending)[index]? = some true →
        left.Safe ⟨index⟩ := by
  induction steps generalizing marked pending with
  | zero => exact ⟨rfl, marks⟩
  | succ steps ih =>
      unfold Arena.markPending
      split
      · exact ⟨rfl, marks⟩
      next block rest first =>
        have among : ∀ other ∈ block :: rest, left.Safe other := fun other inside =>
          safe other ((List.dropWhile_suffix _).subset (first ▸ inside))
        rw [List.forall_mem_cons] at among
        obtain ⟨found, here⟩ := among.1.live
        have references : right.references block = left.references block :=
          (agrees.live here).references.trans here.references.symm
        rw [references]
        refine ih (fun other inside => ?_) fun index mark => ?_
        · rcases List.mem_append.mp inside with refers | later
          · exact among.1.reaches (.single refers)
          · exact among.2 other later
        · rw [List.getElem?_set] at mark
          split at mark
          next same => exact same ▸ among.1
          next => exact marks index mark

theorem Agrees.reached (agrees : left.Agrees right)
    (safe : ∀ root ∈ roots, left.Safe root) (covers : ∀ terms ∈ live, left.Covers terms) :
    right.reached roots live = left.reached roots live ∧
      ∀ index, (left.reached roots live)[index]? = some true → left.Safe ⟨index⟩ := by
  unfold Arena.reached
  rw [agrees.slots]
  refine agrees.markPending (fun slot among => ?_)
    fun index mark => by simp [List.getElem?_replicate] at mark
  rcases List.mem_append.mp among with root | named
  · exact safe slot root
  · obtain ⟨terms, inside, names⟩ := List.mem_flatMap.mp named
    exact covers terms inside slot names

/-- Of two lists of blocks the same is kept if they differ in unmarked places only. -/
theorem keepMarked_congr {blocks others : List Block}
    (length : others.length = blocks.length)
    (same : ∀ index : Nat, marked[index]? = some true → others[index]? = blocks[index]?) :
    keepMarked others marked = keepMarked blocks marked := by
  induction marked generalizing blocks others with
  | nil => cases blocks <;> cases others <;> rfl
  | cons mark rest ih =>
      cases blocks with
      | nil => rw [List.eq_nil_of_length_eq_zero length]
      | cons block blocks =>
          obtain ⟨other, others, rfl⟩ := List.exists_cons_of_length_eq_add_one length
          have later :=
            ih (Nat.succ.inj length)
              fun index set => by simpa using same (index + 1) (by simpa using set)
          cases mark with
          | false => simp [keepMarked, later]
          | true =>
              have first : other = block := by simpa using same 0 (by simp)
              simp [keepMarked, later, first]

/-- After a collection that starts from safe slots the arenas are the same. -/
theorem Agrees.collected (agrees : left.Agrees right)
    (safe : ∀ root ∈ roots, left.Safe root) (covers : ∀ terms ∈ live, left.Covers terms) :
    right.collected roots live = left.collected roots live := by
  obtain ⟨same, marks⟩ := agrees.reached safe covers
  have kept : keepMarked right.blocks.toList (trimMarks (left.reached roots live)) =
      keepMarked left.blocks.toList (trimMarks (left.reached roots live)) := by
    have sizes : right.blocks.size = left.blocks.size := agrees.slots
    refine keepMarked_congr (by simpa using sizes) fun index mark => ?_
    have cuts : trimMarks (left.reached roots live) <+: left.reached roots live :=
      trimMarks_prefix
    obtain ⟨cut, whole⟩ := cuts
    have set : (left.reached roots live)[index]? = some true := by
      rw [← whole, List.getElem?_append_left (List.getElem?_eq_some_iff.mp mark).1]
      exact mark
    obtain ⟨found, here⟩ := (marks index set).live
    simpa [block?] using agrees.blocks ⟨index⟩ here.2
  simp only [Arena.collected, same, kept]

end Collection

end TicketFlow.Arena
