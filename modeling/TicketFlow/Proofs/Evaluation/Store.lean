import TicketFlow.Proofs.Evaluation.Pass
import TicketFlow.Reduction.Context

namespace TicketFlow

/-! Reduction with stores of results.

A store gives every invocation a ticket by its lambda and bindings, and knows
the outputs of some tickets.  Reducing with some of the outputs and reducing
what is left with more of them comes to the same as reducing with more of them
at once.
-/

structure Store where
  identity : ForeignLambda → Bindings → TicketId
  outputs : TicketId → Nat → Option (List String)

namespace Store

def placeholder (store : Store) (apply : Apply) (lambda : ForeignLambda) :
    Placeholder where
  ticket := store.identity lambda apply.bindings
  channel := apply.channel
  output := (lambda.prototype.output? apply.channel).getD ""

instance : TicketSource Store where
  request store _ _
    apply := apply.foreignTask.map fun lambda => (store.placeholder apply lambda, store)
  read store id channel := ((store.outputs id channel).map Compound.strs, store)

/-- The other store knows more outputs of the same tickets. -/
structure Within (known more : Store) : Prop where
  identity : known.identity = more.identity
  outputs :
    ∀ {id channel values}, known.outputs id channel = some values →
    more.outputs id channel = some values

/-- What a store knows, as an oracle that rejects what a pass rejects. -/
def oracle (store : Store) : Oracle where
  placeholder apply := apply.foreignTask.toOption.map (store.placeholder apply)
  output? id channel := (store.outputs id channel).map Compound.strs
  fallback := none

variable {known more store : Store} {consumer : ConsumerId} {query : QueryId}

/-- Reading a store leaves it as it is. -/
theorem resolve_run (placeholder : Placeholder) (pass : Pass Store) :
    Reduction.resolve placeholder pass =
      (.ok
        (((pass.source.outputs placeholder.ticket placeholder.channel).map Compound.strs).getD
          [.ticket placeholder]),
        pass) := rfl

theorem literal_oracle (store : Store) : store.oracle.Literal := by
  intro id channel value found term member
  obtain ⟨values, _, rfl⟩ := Option.map_eq_some_iff.mp found
  obtain ⟨text, _, rfl⟩ := List.mem_map.mp member
  exact ⟨text, rfl⟩

theorem Within.refl (store : Store) : store.Within store :=
  ⟨rfl, id⟩

/-- A store backs every pass as the oracle of a larger one does, and
exactly as its own does. -/
theorem Within.backs (within : known.Within more)
    (consumer : ConsumerId) (query : QueryId) :
    Backs more.oracle consumer query (fun store => store = known) (known = more) True where
  request := by
    rintro store after apply placeholder rfl granted
    cases task : apply.foreignTask with
    | error fault => simp [TicketSource.request, task, Except.map] at granted
    | ok lambda =>
        simp only [TicketSource.request, task, Except.map, Except.ok.injEq,
          Prod.mk.injEq] at granted
        obtain ⟨rfl, rfl⟩ := granted
        have same : more.placeholder apply lambda = store.placeholder apply lambda := by
          simp only [Store.placeholder, within.identity]
        exact ⟨rfl, more.placeholder apply lambda,
          by simp [oracle, task, Except.toOption], by rw [same], fun _ => same⟩
  read same := same
  output := by
    rintro store id channel value rfl found
    obtain ⟨values, stored, rfl⟩ := Option.map_eq_some_iff.mp found
    simp [oracle, within.outputs stored]
  literal := more.literal_oracle
  told := by
    rintro store id channel rfl rfl
    rfl
  answers := by
    rintro store apply placeholder _ rfl issued
    obtain ⟨lambda, task, rfl⟩ := Option.map_eq_some_iff.mp issued
    cases found : apply.foreignTask with
    | error fault => simp [found, Except.toOption] at task
    | ok lambda =>
        exact ⟨_, _, by simp [TicketSource.request, found, Except.map]; exact ⟨rfl, rfl⟩⟩

end Store

section Root

variable {σ : Type} {arena : Arena} {root : BlockId} {block : Block} {sound : σ → Prop}

/-- In a block without a parent a name is found in the block or not at all. -/
theorem Arena.lookup_root (stored : arena.block? root = some block)
    (parentless : block.parent = none) (name : String) :
    arena.lookup root name = .ok (block.get? name) := by
  unfold lookup
  rw [stored]
  simp only [lookupWithin, get, stored, parentless]
  cases block.get? name <;> rfl

theorem Pass.ready_start (stored : arena.block? root = some block)
    (parentless : block.parent = none) {consumer : ConsumerId} {query : QueryId}
    {source : σ} (holds : sound source) (names : List String) :
    (Pass.start consumer query source arena root).Ready block.get? consumer query
      sound names where
  consumer := rfl
  query := rfl
  sound := holds
  reads := Arena.lookup_root stored parentless
  resolving := by simp [Pass.start]

end Root

section Again

variable {known more store : Store} {arena : Arena} {root : BlockId} {block : Block}
  {compound result : Compound} {depth : Nat} {consumer : ConsumerId} {query : QueryId}

/-- A pass over a plain compound ends with a value, or the value that a larger store has
for it does not exist. -/
theorem Store.Within.reduce (within : known.Within more)
    (stored : arena.block? root = some block) (parentless : block.parent = none)
    (scope : PlainScope block.get?) (plain : Term.AreAllPlain block.get? compound)
    (valued : more.oracle.eval block.get? depth compound = some result) :
    ∃ residual after,
      Reduction.reduce depth compound (Pass.start consumer query known arena root) =
        (.ok residual, after) ∧ after.arena = arena ∧
      Resumed more.oracle block.get? (known = more) depth compound residual := by
  have ready : (Pass.start consumer query known arena root).Ready block.get? consumer
      query (fun store => store = known) (Term.namesOfAll compound) :=
    Pass.ready_start stored parentless (by rfl) _
  obtain ⟨⟨⟨source, moved⟩, _⟩, resumed, ends⟩ :=
    (within.backs consumer query).yields_reduce scope depth plain _ ready
  obtain ⟨residual, reduced⟩ := ends ⟨trivial, rfl, result, valued⟩
  exact ⟨residual, _, Prod.ext reduced rfl, congrArg Pass.arena moved,
    resumed residual reduced⟩

/-- Reducing with some results, and reducing what is left with more of them, gives exactly
what reducing with more of them gives at once. -/
theorem Store.reduce_twice (within : known.Within more)
    (stored : arena.block? root = some block) (parentless : block.parent = none)
    (scope : PlainScope block.get?) (plain : Term.AreAllPlain block.get? compound)
    (atOnce : (Reduction.reduce depth compound (Pass.start consumer query more arena root)).1 =
      .ok result) :
    ∃ residual after, Reduction.reduce depth compound
      (Pass.start consumer query known arena root) = (.ok residual, after) ∧
      after.arena = arena ∧
      (Reduction.reduce depth residual (Pass.start consumer query more after.arena root)).1 =
        .ok result := by
  have ready : (Pass.start consumer query more arena root).Ready block.get? consumer query
      (fun store => store = more) (Term.namesOfAll compound) :=
    Pass.ready_start stored parentless (by rfl) _
  have whole :=
    ((Store.Within.refl more).backs consumer query).yields_reduce scope depth plain _ ready
  have valued := (whole.2.1 result atOnce).value rfl
  obtain ⟨residual, after, first, sameArena, resumed⟩ :=
    within.reduce stored parentless scope plain valued
  refine ⟨residual, after, first, sameArena, ?_⟩
  have residualPlain := Term.areAllPlain_iff.mpr resumed.plain
  have residualValued := resumed.same valued
  rw [sameArena]
  obtain ⟨again, _, second, _, final⟩ :=
    (Store.Within.refl more).reduce stored parentless scope residualPlain residualValued
  rw [second]
  exact congrArg Except.ok (Option.some.inj ((final.value rfl).symm.trans residualValued))

end Again

namespace Store

/-- A store that gives every invocation the same ticket. -/
def shared (outputs : Option (List String)) : Store where
  identity _ _ := ⟨List.replicate 32 0, Digest.length_zeros⟩
  outputs _ _ := outputs

theorem within_shared (outputs : Option (List String)) :
    (shared none).Within (shared outputs) where
  identity := rfl
  outputs known := by simp [shared] at known

/-- A task that is bound to a name in the root block. -/
def copyTask : ForeignLambda where
  name := "copy"
  prototype := { params := [.plain "x"], outputs := ["y"] }
  lang := "bash"
  script := "copy $x"

def copyBlock : Block := { bindings := [("copy", [.lambda (.foreign copyTask)])] }

/-- Two copies, one after the other. -/
def copyTwice : Compound :=
  [.apply [.name "copy"] [("x", [.apply [.name "copy"] [("x", [.str "1"])] 1 false])] 1 false]

theorem copyBlock_get? {name : String} {bound : Compound}
    (found : copyBlock.get? name = some bound) :
    bound = [.lambda (.foreign copyTask)] := by
  by_cases same : "copy" = name
  · simpa [copyBlock, Block.get?, OrderedMap.get?, same, eq_comm] using found
  · simp [copyBlock, Block.get?, OrderedMap.get?, same] at found

theorem plainScope_copyBlock : PlainScope copyBlock.get? where
  plain found := by
    rw [copyBlock_get? found]
    exact ⟨trivial, trivial⟩
  acyclic := by
    intro name circle
    have mentionsNothing : ∀ outer inner, ¬Mentions copyBlock.get? outer inner := by
      rintro outer inner ⟨bound, found, inside⟩
      rw [copyBlock_get? found] at inside
      simp [Term.namesOfAll, Term.names] at inside
    cases circle with
    | single mentions => exact mentionsNothing _ _ mentions
    | tail _ mentions => exact mentionsNothing _ _ mentions

theorem separate_of_resolved_copy {alternatives : Compound}
    (resolved : Resolved copyBlock.get? [.name "copy"] alternatives) :
    Separate alternatives := by
  cases resolved with
  | other unbound _ => simp [copyBlock, Block.get?, OrderedMap.get?] at unbound
  | name found bound rest =>
      rw [copyBlock_get? found] at bound
      rw [bound.eq_of_unbound (by simp), rest.eq_of_unbound (by simp)]
      intro lambda member _
      rw [List.append_nil, List.mem_singleton] at member
      rw [List.append_nil, member]

theorem areAllPlain_copyTwice : Term.AreAllPlain copyBlock.get? copyTwice := by
  refine ⟨⟨⟨trivial, trivial⟩,
    ⟨⟨⟨⟨trivial, trivial⟩,
      ⟨⟨trivial, trivial⟩, trivial⟩, ?_⟩, trivial⟩, trivial⟩, ?_⟩, trivial⟩
  · exact fun _ => separate_of_resolved_copy
  · exact fun _ => separate_of_resolved_copy

theorem reduce_twice_copies :
    ∃ residual after,
      Reduction.reduce 5 copyTwice
        (Pass.start ⟨1⟩ ⟨1⟩ (shared none) { blocks := #[copyBlock] } ⟨0⟩) =
        (.ok residual, after) ∧
      after.arena = { blocks := #[copyBlock] } ∧
      (Reduction.reduce 5 residual
        (Pass.start ⟨1⟩ ⟨1⟩ (shared (some ["a"])) after.arena ⟨0⟩)).1 = .ok [.str "a"] := by
  have within : (shared none).Within (shared (some ["a"])) := ⟨rfl, by simp [shared]⟩
  refine reduce_twice within rfl rfl plainScope_copyBlock areAllPlain_copyTwice ?_
  rfl

end Store

end TicketFlow
