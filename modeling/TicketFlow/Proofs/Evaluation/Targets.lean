import TicketFlow.Proofs.Arena.Collect
import TicketFlow.Proofs.Evaluation.Store

namespace TicketFlow

/-! Passes over all targets of a query.

Under an oracle that rejects nothing the targets have one value, and no pass
changes it.  Results without placeholders are their own value.
-/

namespace Oracle

/-- The compound has the value, within some depth. -/
def HasValue (oracle : Oracle) (lookup : String → Option Compound)
    (compound value : Compound) : Prop :=
  ∃ depth, oracle.eval lookup depth compound = some value

variable {oracle other : Oracle} {lookup : String → Option Compound}
  {compound value result : Compound}

theorem HasValue.unique (found : oracle.HasValue lookup compound value)
    (again : oracle.HasValue lookup compound result) : value = result := by
  obtain ⟨_, found⟩ := found
  obtain ⟨_, again⟩ := again
  exact eval_unique found again

theorem HasValue.noStricter (noStricter : NoStricter oracle other)
    (found : oracle.HasValue lookup compound value) :
    other.HasValue lookup compound value := by
  obtain ⟨depth, found⟩ := found
  exact ⟨depth, noStricter.eval (Nat.le_refl depth) found⟩

/-- A compound whose terms are their own values is its own value. -/
theorem HasValue.self (each : ∀ term ∈ compound, oracle.HasValue lookup [term] [term]) :
    oracle.HasValue lookup compound compound := by
  induction compound with
  | nil => exact ⟨1, rfl⟩
  | cons term rest ih =>
      rw [List.forall_mem_cons] at each
      obtain ⟨first, head⟩ := each.1
      obtain ⟨second, tail⟩ := ih each.2
      refine ⟨max first second, ?_⟩
      exact eval_append (eval_mono (Nat.le_max_left _ _) head)
        (eval_mono (Nat.le_max_right _ _) tail)

end Oracle

section Targets

variable {oracle : Oracle} {lookup : String → Option Compound} {exact complete : Prop}
  {depth : Nat} {targets results : List Compound}

theorem Resumed.flatten
    (resumed : List.Forall₂ (Resumed oracle lookup exact depth) targets results) :
    ∃ depth, Resumed oracle lookup exact depth targets.flatten results.flatten := by
  have positive (known : 0 < depth) :
      Resumed oracle lookup exact depth targets.flatten results.flatten := by
    induction resumed with
    | nil => exact .nil known
    | cons head _ ih => exact head.append ih
  cases resumed with
  | nil => exact ⟨1, .nil Nat.one_pos⟩
  | cons head _ => exact ⟨depth, positive head.positive⟩

/-- Under an oracle that rejects nothing, what a pass leaves has the same values as
what it started from. -/
theorem Resumed.hasValue_iff {compound residual value : Compound}
    (resumed : Resumed oracle lookup exact depth compound residual)
    (lenient : oracle.fallback ≠ none) :
    oracle.HasValue lookup residual value ↔ oracle.HasValue lookup compound value := by
  obtain ⟨common, before⟩ := resumed.total lenient
  have after : oracle.HasValue lookup residual common := ⟨depth, resumed.same before⟩
  constructor
  · intro found
    rw [found.unique after]
    exact ⟨depth, before⟩
  · intro found
    rw [found.unique ⟨depth, before⟩]
    exact after

variable {σ : Type} [TicketSource σ] {consumer : ConsumerId} {query : QueryId}
  {sound : σ → Prop}

theorem Backs.yields_reduceTargets
    (backs : Backs oracle consumer query sound exact complete) (scope : PlainScope lookup)
    (depth : Nat) (plain : ∀ target ∈ targets, Term.AreAllPlain lookup target) :
    PassM.Yields lookup consumer query sound (Term.namesOfAll targets.flatten)
      (List.Forall₂ (Resumed oracle lookup exact depth) targets) False
      (Reduction.reduceTargets depth targets) := by
  induction targets with
  | nil => exact PassM.ensures_pure Pass.steady fun _ _ => .nil
  | cons target rest ih =>
      rw [List.forall_mem_cons] at plain
      have named {name : String}
          (member : name ∈ Term.namesOfAll target ∨ name ∈ Term.namesOfAll rest.flatten) :
          name ∈ Term.namesOfAll (target :: rest).flatten := by
        simp only [Term.mem_namesOfAll_iff, List.flatten_cons,
          List.mem_append] at member ⊢
        obtain ⟨term, inside, used⟩ | ⟨term, inside, used⟩ := member
        · exact ⟨term, .inl inside, used⟩
        · exact ⟨term, .inr inside, used⟩
      have headYields : PassM.Yields lookup consumer query sound
          (Term.namesOfAll (target :: rest).flatten)
          (Resumed oracle lookup exact depth target) False (Reduction.reduce depth target) :=
        (backs.yields_reduce scope depth plain.1).mono
          (fun pass ready => ready.subset fun name member => named (.inl member))
          (fun _ _ => id) False.elim
      have restYields : PassM.Yields lookup consumer query sound
          (Term.namesOfAll (target :: rest).flatten)
          (List.Forall₂ (Resumed oracle lookup exact depth) rest) False
          (Reduction.reduceTargets depth rest) :=
        (ih plain.2).mono
          (fun pass ready => ready.subset fun name member => named (.inr member))
          (fun _ _ => id) id
      unfold Reduction.reduceTargets
      refine headYields.bind fun head reduced => ?_
      exact PassM.Ensures.map restYields fun _ _ others => .cons reduced others

end Targets

/-- A context that has a plain root block and plain targets, and what their values are. -/
structure Context.Means (oracle : Oracle) (block : Block) (meaning : Compound → Prop)
    (context : Context) : Prop where
  stored : context.arena.block? context.root = some block
  plain : ∀ target ∈ context.targets, Term.AreAllPlain block.get? target
  values : ∀ value, oracle.HasValue block.get? context.current value ↔ meaning value

section Contexts

variable {σ : Type} [TicketSource σ] {oracle : Oracle} {exact complete : Prop}
  {consumer : ConsumerId} {query : QueryId} {sound : σ → Prop} {context : Context}
  {source : σ} {block : Block} {meaning : Compound → Prop}

/-- One pass over a plain context: only the targets and the source change, and
the targets are resumed. -/
theorem Backs.reduce_context (backs : Backs oracle consumer query sound exact complete)
    (scope : PlainScope block.get?) (parentless : block.parent = none)
    (stored : context.arena.block? context.root = some block)
    (plain : ∀ target ∈ context.targets, Term.AreAllPlain block.get? target)
    (holds : sound source) (depth : Nat) :
    sound (context.reduce depth source consumer query).source ∧
      (((∃ reason, (context.reduce depth source consumer query).outcome = .error reason) ∧
          (context.reduce depth source consumer query).context = context) ∨
        ∃ targets,
          List.Forall₂ (Resumed oracle block.get? exact depth) context.targets targets ∧
          (context.reduce depth source consumer query).outcome = .ok targets.flatten ∧
          (context.reduce depth source consumer query).context =
            { context with
              targets, arena := context.arena.collected [context.root] targets }) := by
  have ready : (Pass.start consumer query source context.arena context.root).Ready
      block.get? consumer query sound (Term.namesOfAll context.targets.flatten) :=
    Pass.ready_start stored parentless holds _
  obtain ⟨⟨⟨left, moved⟩, kept⟩, fine, _⟩ :=
    backs.yields_reduceTargets scope depth plain _ ready
  unfold Context.reduce
  cases outcome : Reduction.reduceTargets depth context.targets
      (Pass.start consumer query source context.arena context.root) with
  | mk result after =>
      rw [outcome] at moved kept fine
      simp only at moved kept fine
      subst moved
      cases result with
      | error reason => exact ⟨kept holds, .inl ⟨⟨reason, rfl⟩, rfl⟩⟩
      | ok targets => exact ⟨kept holds, .inr ⟨targets, fine targets rfl, rfl, rfl⟩⟩

/-- A pass over a plain context keeps it plain and its values as they are; a result
without placeholders is its own value. -/
theorem Context.Means.reduce (means : context.Means oracle block meaning)
    (backs : Backs oracle consumer query sound exact complete)
    (lenient : oracle.fallback ≠ none) (scope : PlainScope block.get?)
    (parentless : block.parent = none) (holds : sound source) (depth : Nat) :
    sound (context.reduce depth source consumer query).source ∧
      (context.reduce depth source consumer query).context.Means oracle block meaning ∧
      ∀ result, (context.reduce depth source consumer query).outcome = .ok result →
        result = (context.reduce depth source consumer query).context.current ∧
          ((∀ term ∈ result, term.IsSettled) → oracle.HasValue block.get? result result) := by
  obtain ⟨kept, ⟨⟨reason, failed⟩, same⟩ | ⟨targets, resumed, ended, changed⟩⟩ :=
    backs.reduce_context scope parentless means.stored means.plain holds depth
  · rw [same]
    exact ⟨kept, means, fun result ended => by simp [failed] at ended⟩
  · obtain ⟨within, whole⟩ := Resumed.flatten resumed
    rw [changed]
    refine ⟨kept, ⟨Arena.block?_collected_root means.stored, ?_, ?_⟩, ?_⟩
    · refine fun target member => Term.areAllPlain_iff.mpr fun term inside => ?_
      exact whole.plain term (List.mem_flatten.mpr ⟨target, member, inside⟩)
    · exact fun value => (whole.hasValue_iff lenient).trans (means.values value)
    · intro result same
      obtain rfl := Except.ok.inj (ended.symm.trans same)
      exact ⟨rfl, fun settled => Oracle.HasValue.self fun term member =>
        ⟨within, whole.stable term member (settled term member)⟩⟩

end Contexts

end TicketFlow
