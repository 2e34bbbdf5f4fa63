import TicketFlow.Proofs.Stability.Relabel
import TicketFlow.Proofs.Stability.Tour

namespace TicketFlow

/-! Copies of terms, with copies of the branches on the way through them.

What a pass copies is recorded: each block that it makes with the one that it is
a copy of.  Any numbering that goes back from the made blocks to their originals,
and leaves the blocks of before alone, turns the copy into the original.
-/

namespace Arena

/-- The numbering goes back from the blocks made to those that they were made of, and
leaves those in use before alone. -/
structure Undoes (base : Arena) (made : List (BlockId × BlockId))
    (number : BlockId → BlockId) : Prop where
  made : ∀ pair ∈ made, number pair.1 = pair.2
  kept : ∀ {slot block}, base.Live slot block → number slot = slot

/-- Between the arenas new blocks were made, copies of blocks of the base. -/
structure Makes (base before after : Arena) (made : List (BlockId × BlockId)) : Prop where
  sound : after.Sound
  preserves : before.Preserves after
  distinct : (made.map Prod.fst).Nodup
  unused : ∀ pair ∈ made, ∀ block, ¬before.Live pair.1 block
  copies : ∀ pair ∈ made, ∃ copy, after.Live pair.1 copy ∧
    ∀ number, base.Undoes made number → base.Live pair.2 (copy.relabel number)

variable {base before middle after : Arena} {made more : List (BlockId × BlockId)}
  {number : BlockId → BlockId} {slot fresh : BlockId} {block copy : Block}
  {terms : Compound}

theorem Undoes.left (undoes : base.Undoes (made ++ more) number) :
    base.Undoes made number :=
  ⟨fun pair among => undoes.made pair (List.mem_append_left _ among), undoes.kept⟩

theorem Undoes.right (undoes : base.Undoes (made ++ more) number) :
    base.Undoes more number :=
  ⟨fun pair among => undoes.made pair (List.mem_append_right _ among), undoes.kept⟩

theorem Undoes.safe (undoes : base.Undoes made number) (safe : base.Safe slot) :
    number slot = slot := by
  obtain ⟨block, live⟩ := safe.live
  exact undoes.kept live

theorem Undoes.keeps (undoes : base.Undoes made number) (safe : base.Safe slot)
    (live : base.Live slot block) : block.relabel number = block := by
  have same :=
    Bindings.relabel_eq_self fun other named => undoes.safe (safe.coversAll live other named)
  rw [Block.relabel, same]

theorem makes_nil (sound : before.Sound) : base.Makes before before [] where
  sound := sound
  preserves := .refl _
  distinct := List.nodup_nil
  unused _ among := absurd among List.not_mem_nil
  copies _ among := absurd among List.not_mem_nil

theorem Makes.trans (first : base.Makes before middle made)
    (second : base.Makes middle after more) : base.Makes before after (made ++ more) where
  sound := second.sound
  preserves := first.preserves.trans second.preserves
  distinct := by
    rw [List.map_append]
    refine first.distinct.append second.distinct fun slot here there => ?_
    obtain ⟨pair, among, rfl⟩ := List.mem_map.mp here
    obtain ⟨other, inside, same⟩ := List.mem_map.mp there
    obtain ⟨copy, live, _⟩ := first.copies pair among
    exact second.unused other inside copy (same ▸ live)
  unused pair among block live := by
    rcases List.mem_append.mp among with here | there
    · exact first.unused pair here block live
    · exact second.unused pair there block (first.preserves.live live)
  copies pair among := by
    rcases List.mem_append.mp among with here | there
    · obtain ⟨copy, live, undone⟩ := first.copies pair here
      exact ⟨copy, second.preserves.live live, fun number undoes => undone number undoes.left⟩
    · obtain ⟨copy, live, undone⟩ := second.copies pair there
      exact ⟨copy, live, fun number undoes => undone number undoes.right⟩

/-- One more copy is made. -/
theorem Makes.extend {original : BlockId} (makes : base.Makes before middle made)
    (extends_ : middle.Extends after fresh copy)
    (undone : ∀ number, base.Undoes (made ++ [(fresh, original)]) number →
      base.Live original (copy.relabel number)) :
    base.Makes before after (made ++ [(fresh, original)]) where
  sound := extends_.sound
  preserves := makes.preserves.trans extends_.preserving
  distinct := by
    rw [List.map_append]
    refine makes.distinct.append (List.nodup_singleton _) fun slot here there => ?_
    obtain ⟨pair, among, rfl⟩ := List.mem_map.mp here
    obtain ⟨block, live, _⟩ := makes.copies pair among
    have same : pair.1 = fresh := List.mem_singleton.mp there
    exact extends_.unused block (same ▸ live)
  unused pair among block live := by
    rcases List.mem_append.mp among with here | last
    · exact makes.unused pair here block live
    · obtain rfl := List.mem_singleton.mp last
      exact extends_.unused block (makes.preserves.live live)
  copies pair among := by
    rcases List.mem_append.mp among with here | last
    · obtain ⟨copy, live, undone⟩ := makes.copies pair here
      exact ⟨copy, extends_.preserves live, fun number undoes => undone number undoes.left⟩
    · obtain rfl := List.mem_singleton.mp last
      exact ⟨copy, extends_.live, undone⟩

/-- There is a numbering that goes back. -/
theorem Makes.undone (makes : base.Makes before after made)
    (preserves : base.Preserves before) : ∃ number, base.Undoes made number := by
  -- no block is made twice, so the pairs are a map
  refine ⟨fun slot => (OrderedMap.get? made slot).getD slot,
    ⟨fun pair among => ?_, fun {slot block} live => ?_⟩⟩
  · have found : OrderedMap.get? made pair.1 = some pair.2 :=
      (OrderedMap.mem_iff_get? makes.distinct).mp among
    rw [found, Option.getD_some]
  · cases found : OrderedMap.get? made slot with
    | none => rfl
    | some original =>
        exact absurd (preserves.live live)
          (makes.unused (slot, original) (OrderedMap.mem_of_get? found) block)

end Arena

section Twins

open Arena

def Visit.relabel (number : BlockId → BlockId) (visit : Visit) : Visit :=
  ⟨number visit.scope, visit.term.relabel number⟩

/-- What is held keeps its numbers. -/
def Tour.relabel (number : BlockId → BlockId) (tour : Tour) : Tour where
  visits := tour.visits.map (Visit.relabel number)
  copied := tour.copied.map number
  held := tour.held

theorem Tour.relabel_append {number : BlockId → BlockId} {first second : Tour} :
    (first ++ second).relabel number = first.relabel number ++ second.relabel number := by
  ext1 <;> simp [Tour.relabel]

/-- A copy, with the blocks made for it: in whatever scope it is met, the way through it
leads through these blocks only, through none of them twice, and is the way through the
original when the numbers go back. -/
structure Twin {α : Type} (base : Arena) (relabel : (BlockId → BlockId) → α → α)
    (tours : BlockId → α → Tour → Prop) (made : List (BlockId × BlockId))
    (scope : BlockId) (original : α) (tour : Tour) (copy : α) : Prop where
  undone : ∀ number, base.Undoes made number → relabel number copy = original
  toured :
    ∀ other, ∃ again, tours other copy again ∧ again.copied.Sublist (made.map Prod.fst) ∧
    ∀ number, base.Undoes made number → number other = scope → again.relabel number = tour

variable {α β γ : Type} {base : Arena} {relabel : (BlockId → BlockId) → α → α}
  {relabels : (BlockId → BlockId) → β → β} {rename : (BlockId → BlockId) → γ → γ}
  {tours wider : BlockId → α → Tour → Prop} {toursToo : BlockId → β → Tour → Prop}
  {toured : BlockId → γ → Tour → Prop} {made more : List (BlockId × BlockId)}
  {scope : BlockId} {original copy : α} {second secondCopy : β} {tour further : Tour}

theorem Twin.mono (twin : Twin base relabel tours made scope original tour copy)
    (implies : ∀ other tour, tours other copy tour → wider other copy tour) :
    Twin base relabel wider made scope original tour copy where
  undone := twin.undone
  toured other := by
    obtain ⟨again, way, rest⟩ := twin.toured other
    exact ⟨again, implies other again way, rest⟩

/-- A copy of a whole with two parts, from a copy of each. -/
theorem Twin.both {whole : α → β → γ}
    (first : Twin base relabel tours made scope original tour copy)
    (other : Twin base relabels toursToo more scope second further secondCopy)
    (renames : ∀ number,
      rename number (whole copy secondCopy) =
        whole (relabel number copy) (relabels number secondCopy))
    (joins : ∀ scope front back, tours scope copy front → toursToo scope secondCopy back →
      toured scope (whole copy secondCopy) (front ++ back)) :
    Twin base rename toured (made ++ more) scope (whole original second) (tour ++ further)
      (whole copy secondCopy) where
  undone number undoes := by rw [renames, first.undone number undoes.left,
    other.undone number undoes.right]
  toured entered := by
    obtain ⟨front, here, within, before⟩ := first.toured entered
    obtain ⟨back, there, inside, after⟩ := other.toured entered
    refine ⟨front ++ back, joins entered front back here there, ?_,
      fun number undoes same => ?_⟩
    · rw [List.map_append]
      exact within.append inside
    · rw [Tour.relabel_append, before number undoes.left same,
        after number undoes.right same]

/-- A copy of a term, from a copy of what is in it. -/
theorem Twin.visited (build : α → Term) {visited : BlockId → Term → Tour → Prop}
    (twin : Twin base relabel tours made scope original tour copy)
    (renames : ∀ number, (build copy).relabel number = build (relabel number copy))
    (visits : ∀ scope again, tours scope copy again →
      visited scope (build copy) (.visit scope (build copy) ++ again)) :
    Twin base Term.relabel visited made scope (build original)
      (.visit scope (build original) ++ tour)
      (build copy) where
  undone number undoes := by rw [renames, twin.undone number undoes]
  toured entered := by
    obtain ⟨again, way, within, undone⟩ := twin.toured entered
    refine ⟨.visit entered (build copy) ++ again, visits entered again way,
      by simpa using within, fun number undoes same => ?_⟩
    have here : (Tour.visit entered (build copy)).relabel number =
        .visit scope (build original) := by
      simp [Tour.relabel, Tour.visit, Visit.relabel, same, renames,
        twin.undone number undoes]
    rw [Tour.relabel_append, here, undone number undoes same]

/-- Nothing is copied for a term that the way ends in. -/
theorem twin_plain {recurse : BlockId → Compound → Tour → Prop}
    {arena : Arena} {term : Term} (plain : term.isPlain = true)
    (safe : ∀ block ∈ term.blocks, base.Safe block) :
    Twin base Term.relabel (TermTour recurse arena) [] scope term
      { visits := [⟨scope, term⟩], held := term.blocks } term := by
  have same {number : BlockId → BlockId}
      (undoes : base.Undoes [] number) : term.relabel number = term :=
    Term.relabel_eq_self term fun block named => undoes.safe (safe block named)
  refine ⟨fun number => same,
    fun entered => ⟨_, .plain plain, List.Sublist.refl _, fun number undoes here => ?_⟩⟩
  simp [Tour.relabel, Visit.relabel, here, same undoes]

theorem twin_empty {value : α} (same : ∀ number, relabel number value = value)
    (way : ∀ scope, tours scope value {}) :
    Twin base relabel tours [] scope value {} value :=
  ⟨fun number _ => same number,
    fun entered => ⟨_, way entered, List.Sublist.refl _, fun _ _ _ => rfl⟩⟩

/-- A compound of one term. -/
theorem Twin.alone {arena : Arena} {depth : Nat} {term again : Term}
    (twin : Twin base Term.relabel
      (TermTour (arena.Tours depth) arena) made scope term tour again) :
    Twin base Compound.relabel (arena.Tours (depth + 1)) made scope [term] tour [again] where
  undone number undoes := congrArg List.singleton (twin.undone number undoes)
  toured entered := by
    obtain ⟨tour, way, rest⟩ := twin.toured entered
    exact ⟨tour, strung_singleton.mpr way, rest⟩

/-- A copy that is not met again. -/
theorem Twin.unseen (twin : Twin base relabel tours made scope original tour copy) :
    Twin base relabel (fun _ _ tour => tour = {}) made scope original {} copy :=
  ⟨twin.undone, fun _ => ⟨{}, rfl, List.nil_sublist _, fun _ _ _ => rfl⟩⟩

end Twins

end TicketFlow
