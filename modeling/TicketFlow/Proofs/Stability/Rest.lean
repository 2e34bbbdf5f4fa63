import TicketFlow.Proofs.Reduction.Confinement
import TicketFlow.Proofs.Stability.Relabel
import TicketFlow.Proofs.Stability.Tour

namespace TicketFlow

/-! What a pass leaves is at rest.

On the way through it every ticket is unknown, every condition and every task of
a curry is undecided, and every application is kept when it is expanded, or
calls a foreign task and waits for an argument.  Open names are the exception: a
name that is left may be bound where the next pass meets it.
-/

variable {σ : Type} {known : TicketId → Nat → Option Compound}

/-- The term is of a form that a pass leaves while no more than this is known. -/
inductive Term.Left (known : TicketId → Nat → Option Compound) : Term → Prop where
  | name (name : String) : Left known (.name name)
  | str (value : String) : Left known (.str value)
  | lambda (lambda : Lambda) : Left known (.lambda lambda)
  | ticket {placeholder : Placeholder} :
      known placeholder.ticket placeholder.channel = none →
      Left known (.ticket placeholder)
  | kept {apply : Apply} : apply.Kept → Left known apply.toTerm
  | called {apply : Apply} {lambda : ForeignLambda} :
      apply.Called lambda → Left known apply.toTerm
  | cond {condition : Compound} {prototype : Prototype} {channel : Nat}
      {thenBlock elseBlock : BlockId} {output : String} :
      Compound.isNormal condition = false → prototype.output? channel = some output →
      Left known (.cond condition prototype channel thenBlock elseBlock)
  | curry {task : Term} {bindings : Bindings} :
      task.isNormal = false → Left known (.curry (some [task]) bindings)
  | curries {first second : Term} {others : Compound} {bindings : Bindings} :
      Left known (.curry (some (first :: second :: others)) bindings)

/-- Everything on the way is of a form that a pass leaves. -/
def Tour.Left (known : TicketId → Nat → Option Compound) (tour : Tour) : Prop :=
  ∀ visit ∈ tour.visits, visit.term.Left known

/-- The terms name safe blocks only, and on the way through them, in whatever scope,
everything is of a form that is left. -/
structure Arena.AtRest (known : TicketId → Nat → Option Compound) (arena : Arena)
    (terms : Compound) : Prop where
  covers : arena.Covers terms
  toured : ∃ depth, ∀ scope, ∃ tour, arena.Tours depth scope terms tour ∧ tour.Left known

/-- A branch whose declared outputs are at rest. -/
structure Arena.BranchAtRest (known : TicketId → Nat → Option Compound)
    (prototype : Prototype) (arena : Arena) (slot : BlockId) : Prop where
  safe : arena.Safe slot
  outputs :
    ∃ block, arena.Live slot block ∧
    (∀ output ∈ prototype.outputs, ∃ value, block.get? output = some value) ∧
    arena.AtRest known (block.declared prototype.outputs)

variable {arena before after : Arena} {terms others : Compound} {term : Term}
  {bindings : Bindings} {scope slot : BlockId} {prototype : Prototype}
  {first second : Tour}

theorem Tour.left_append :
    (first ++ second).Left known ↔ first.Left known ∧ second.Left known :=
  List.forall_mem_append

theorem Tour.left_visit : (Tour.visit scope term).Left known ↔ term.Left known :=
  List.forall_mem_singleton

namespace Arena

section Rules

theorem AtRest.preserved (rests : before.AtRest known terms)
    (preserves : before.Preserves after) : after.AtRest known terms where
  covers := preserves.covers rests.covers
  toured := by
    obtain ⟨depth, toured⟩ := rests.toured
    refine ⟨depth, fun scope => ?_⟩
    obtain ⟨tour, way, left⟩ := toured scope
    exact ⟨tour, way.preserved preserves, left⟩

theorem BranchAtRest.preserved (rests : before.BranchAtRest known prototype slot)
    (preserves : before.Preserves after) : after.BranchAtRest known prototype slot where
  safe := preserves.safe rests.safe
  outputs := by
    obtain ⟨block, live, bound, outputs⟩ := rests.outputs
    exact ⟨block, preserves.live live, bound, outputs.preserved preserves⟩

theorem lasting_atRest (known : TicketId → Nat → Option Compound) (terms : Compound) :
    Lasting fun arena => arena.AtRest known terms :=
  ⟨fun preserves rests => rests.preserved preserves⟩

theorem lasting_branchAtRest (prototype : Prototype) (slot : BlockId) :
    Lasting fun arena => arena.BranchAtRest known prototype slot :=
  ⟨fun preserves rests => rests.preserved preserves⟩

/-- The ways through two compounds, at one depth. -/
theorem AtRest.both (first : arena.AtRest known terms)
    (second : arena.AtRest known others) :
    ∃ depth, ∀ scope, (∃ tour, arena.Tours depth scope terms tour ∧ tour.Left known) ∧
      ∃ tour, arena.Tours depth scope others tour ∧ tour.Left known := by
  obtain ⟨depth, here⟩ := first.toured
  obtain ⟨more, there⟩ := second.toured
  refine ⟨max depth more, fun scope => ⟨?_, ?_⟩⟩
  · obtain ⟨tour, way, left⟩ := here scope
    exact ⟨tour, way.deeper (Nat.le_max_left _ _), left⟩
  · obtain ⟨tour, way, left⟩ := there scope
    exact ⟨tour, way.deeper (Nat.le_max_right _ _), left⟩

theorem atRest_append :
    arena.AtRest known (terms ++ others) ↔
      arena.AtRest known terms ∧ arena.AtRest known others := by
  constructor
  · intro rests
    obtain ⟨left, right⟩ := covers_append.mp rests.covers
    obtain ⟨depth, toured⟩ := rests.toured
    refine ⟨⟨left, depth, fun scope => ?_⟩, ⟨right, depth, fun scope => ?_⟩⟩ <;>
    · obtain ⟨tour, way, met⟩ := toured scope
      obtain ⟨first, second, rfl, here, there⟩ := tours_append.mp way
      first
        | exact ⟨first, here, (Tour.left_append.mp met).1⟩
        | exact ⟨second, there, (Tour.left_append.mp met).2⟩
  · rintro ⟨first, second⟩
    obtain ⟨depth, toured⟩ := first.both second
    refine ⟨covers_append.mpr ⟨first.covers, second.covers⟩, depth, fun scope => ?_⟩
    obtain ⟨⟨front, here, met⟩, back, there, further⟩ := toured scope
    exact ⟨front ++ back, tours_append.mpr ⟨front, back, rfl, here, there⟩,
      Tour.left_append.mpr ⟨met, further⟩⟩

/-- A term through which there is a way, one level deeper than the ways
through what is in it. -/
theorem atRest_singleton (depth : Nat) (covers : arena.Covers [term])
    (toured : ∀ scope, ∃ tour, TermTour (arena.Tours depth) arena scope term tour ∧
      tour.Left known) : arena.AtRest known [term] := by
  refine ⟨covers, depth + 1, fun scope => ?_⟩
  obtain ⟨tour, way, left⟩ := toured scope
  exact ⟨tour, strung_singleton.mpr way, left⟩

theorem atRest_nil : arena.AtRest known [] :=
  ⟨covers_nil, 1, fun _ => ⟨{}, .nil, fun _ inside => absurd inside List.not_mem_nil⟩⟩

theorem atRest_iff :
    arena.AtRest known terms ↔ ∀ term ∈ terms, arena.AtRest known [term] := by
  induction terms with
  | nil => simp [atRest_nil]
  | cons term rest ih =>
      have whole : term :: rest = [term] ++ rest := rfl
      rw [whole, atRest_append, ih, List.forall_mem_append, List.forall_mem_singleton]

theorem atRest_plain (covers : arena.Covers [term]) (plain : term.isPlain = true)
    (left : term.Left known) : arena.AtRest known [term] := by
  exact atRest_singleton 0 covers
    fun scope => ⟨_, .plain plain, List.forall_mem_singleton.mpr left⟩

theorem coversAll_iff_covers :
    arena.CoversAll bindings ↔ arena.Covers bindings.values.flatten := by
  simp only [coversAll_iff, covers_iff, boundIn_iff_mem_flatten]

theorem atRest_apply {apply : Apply} (task : arena.AtRest known apply.task)
    (arguments : arena.AtRest known apply.bindings.values.flatten)
    (left : apply.toTerm.Left known) : arena.AtRest known [apply.toTerm] := by
  obtain ⟨depth, toured⟩ := task.both arguments
  refine atRest_singleton depth
    (covers_apply.mpr ⟨task.covers, coversAll_iff_covers.mpr arguments.covers⟩) fun scope => ?_
  obtain ⟨⟨tasks, inTask, met⟩, bound, inArguments, further⟩ := toured scope
  exact ⟨_, .apply inTask inArguments,
    Tour.left_append.mpr ⟨Tour.left_visit.mpr left, Tour.left_append.mpr ⟨met, further⟩⟩⟩

theorem atRest_curry {task : Term} (tasks : arena.AtRest known [task])
    (arguments : arena.AtRest known bindings.values.flatten)
    (open_ : task.isNormal = false) :
    arena.AtRest known [.curry (some [task]) bindings] := by
  obtain ⟨depth, toured⟩ := tasks.both arguments
  refine atRest_singleton depth
    (covers_curry.mpr ⟨tasks.covers, coversAll_iff_covers.mpr arguments.covers⟩)
    fun scope => ?_
  obtain ⟨⟨first, inTask, met⟩, bound, inArguments, further⟩ := toured scope
  exact ⟨_, .curry inTask inArguments,
    Tour.left_append.mpr
      ⟨Tour.left_visit.mpr (.curry open_), Tour.left_append.mpr ⟨met, further⟩⟩⟩

theorem BranchAtRest.toured (rests : arena.BranchAtRest known prototype slot) :
    ∃ depth, ∀ more, depth ≤ more → ∃ tour,
      BranchTour (arena.Tours more) arena prototype slot tour ∧ tour.Left known := by
  obtain ⟨block, live, bound, outputs⟩ := rests.outputs
  obtain ⟨depth, toured⟩ := outputs.toured
  obtain ⟨tour, way, left⟩ := toured slot
  exact ⟨depth, fun more enough => ⟨_, .through live bound (way.deeper enough),
    Tour.left_append.mpr ⟨left, List.forall_mem_nil _⟩⟩⟩

theorem atRest_cond (cond : Cond) {output : String}
    (condition : arena.AtRest known cond.condition)
    (undecided : Compound.isNormal cond.condition = false)
    (declared : cond.prototype.output? cond.channel = some output)
    (thenBlock : arena.BranchAtRest known cond.prototype cond.thenBlock)
    (elseBlock : arena.BranchAtRest known cond.prototype cond.elseBlock) :
    arena.AtRest known [cond.toTerm] := by
  obtain ⟨depth, inCondition⟩ := condition.toured
  obtain ⟨thenDepth, inThen⟩ := thenBlock.toured
  obtain ⟨elseDepth, inElse⟩ := elseBlock.toured
  refine atRest_singleton (max depth (max thenDepth elseDepth))
    (covers_cond.mpr ⟨condition.covers, thenBlock.safe, elseBlock.safe⟩) fun scope => ?_
  obtain ⟨conditions, way, met⟩ := inCondition scope
  obtain ⟨thens, thenWay, thenMet⟩ :=
    inThen (max depth (max thenDepth elseDepth)) (by omega)
  obtain ⟨elses, elseWay, elseMet⟩ :=
    inElse (max depth (max thenDepth elseDepth)) (by omega)
  exact ⟨_, .cond (way.deeper (Nat.le_max_left _ _)) thenWay elseWay,
    Tour.left_append.mpr ⟨Tour.left_visit.mpr (.cond undecided declared),
      Tour.left_append.mpr ⟨met, Tour.left_append.mpr ⟨thenMet, elseMet⟩⟩⟩⟩

end Rules

end Arena

section Cases

open PassM Arena

variable {sound : σ → Prop} {recurse : Compound → PassM σ Compound} {holds : Arena → Prop}

theorem confined_joinMap_atRest {β : Type} {f : β → PassM σ Compound}
    {values : List β} (lasting : Lasting holds)
    (each : ∀ value ∈ values, Confined sound holds (AtRest known) (f value)) :
    Confined sound holds (AtRest known) (joinMap f values) := by
  induction values with
  | nil => exact confined_pure fun _ _ => atRest_nil
  | cons value rest ih =>
      rw [List.forall_mem_cons] at each
      unfold joinMap
      refine each.1.bind lasting fun head => ?_
      refine ((ih each.2).weaken fun _ given => given.1).bind
        (lasting.and (lasting_atRest known head)) fun tail => ?_
      exact confined_pure fun _ given => atRest_append.mpr ⟨given.1.2, given.2⟩

theorem confined_mapEntries_atRest {f : Compound → PassM σ Compound}
    {bindings : Bindings} (lasting : Lasting holds)
    (each : ∀ name value, (name, value) ∈ bindings →
      Confined sound holds (AtRest known) (f value)) :
    Confined sound holds
      (fun arena results => arena.AtRest known (OrderedMap.values results).flatten)
      (mapEntries f bindings) := by
  induction bindings with
  | nil => exact confined_pure fun _ _ => atRest_nil
  | cons binding rest ih =>
      obtain ⟨name, value⟩ := binding
      unfold mapEntries
      refine (each name value List.mem_cons_self).bind lasting fun head => ?_
      have others :=
        ih fun name value among => each name value (List.mem_cons_of_mem _ among)
      refine (others.weaken fun _ given => given.1).bind
        (lasting.and (lasting_atRest known head)) fun tail => ?_
      exact confined_pure fun _ given => atRest_append.mpr ⟨given.1.2, given.2⟩

/-- Terms that name safe blocks only reduce to terms at rest. -/
def Resting (known : TicketId → Nat → Option Compound) (sound : σ → Prop)
    (recurse : Compound → PassM σ Compound) : Prop :=
  ∀ terms, Confined sound (fun arena => arena.Covers terms) (AtRest known) (recurse terms)

theorem Resting.confining (resting : Resting known sound recurse) :
    Confining sound recurse := by
  intro terms pass enclosed given
  obtain ⟨result, after, ended⟩ := resting terms pass enclosed given
  exact ⟨result, after,
    { ended with good := fun value same => (ended.good value same).covers }⟩

theorem Resting.reduceName (resting : Resting known sound recurse) (name : String) :
    Confined sound (fun _ => True) (AtRest known) (Reduction.reduceName recurse name) := by
  have stays {holds : Arena → Prop} :
      Confined sound holds (AtRest known) (pure [.name name] : PassM σ Compound) :=
    confined_pure fun _ _ =>
      atRest_plain (covers_of_forall fun term inside => List.mem_singleton.mp inside ▸ rfl)
        rfl (.name name)
  -- the pass is in its root or in a scope that it entered, and all of them are safe
  have entered : Confined sound (fun _ => True) (fun arena scope => arena.Safe scope)
      (view Pass.scope : PassM σ BlockId) := by
    refine confined_view (fun _ _ => rfl) fun pass enclosed _ => ?_
    unfold Pass.scope
    cases innermost : pass.scopes.head? with
    | none => exact enclosed.root
    | some scope => exact enclosed.scopes scope (List.mem_of_mem_head? innermost)
  unfold Reduction.reduceName
  refine entered.bind ⟨fun _ _ => trivial⟩ fun scope => ?_
  refine ((confined_lookup scope name).weaken fun _ given => given.2).bind
    ⟨fun preserves given => ⟨trivial, preserves.safe given.2⟩⟩ fun found => ?_
  cases found with
  | none => exact stays
  | some bound =>
      refine Confined.weaken ?_ fun _ given => given.2 bound rfl
      have views : Confined sound (fun arena => arena.Covers bound) (fun _ _ => True)
          (view fun pass => pass.resolving.contains (scope, name) : PassM σ Bool) :=
        confined_view (fun _ _ => rfl) fun _ _ _ => trivial
      refine views.bind (lasting_covers bound) fun resolving => ?_
      cases resolving with
      | true => exact stays
      | false => exact ((resting bound).weaken fun _ given => given.1).whileResolving

theorem Resting.reduceOutput (resting : Resting known sound recurse) (cond : Cond)
    (branch : BlockId) (output : String) :
    Confined sound (fun arena => arena.Safe branch) (AtRest known)
      (Reduction.reduceOutput recurse cond branch output) := by
  unfold Reduction.reduceOutput
  refine (confined_getLocal branch output).bind (lasting_safe branch) fun found => ?_
  cases found with
  | none => exact confined_reject
  | some value =>
      exact ((resting value).weaken fun _ given => given.2 value rfl).inScope
        fun _ given => given.1

theorem Resting.reduceOutputs (resting : Resting known sound recurse) (cond : Cond)
    (branch : BlockId) (outputs : List String) :
    Confined sound (fun arena => arena.Safe branch)
      (fun arena results => OrderedMap.keys results = outputs ∧
        arena.AtRest known (OrderedMap.values results).flatten)
      (Reduction.reduceOutputs recurse cond branch outputs) := by
  induction outputs with
  | nil => exact confined_pure fun _ _ => ⟨rfl, atRest_nil⟩
  | cons output rest ih =>
      unfold Reduction.reduceOutputs
      refine (resting.reduceOutput cond branch output).bind
        (lasting_safe branch) fun value => ?_
      refine (ih.weaken fun _ given => given.1).bind
        ((lasting_safe branch).and (lasting_atRest known value)) fun others => ?_
      exact confined_pure fun _ given =>
        ⟨congrArg _ given.2.1, atRest_append.mpr ⟨given.1.2, given.2.2⟩⟩

theorem Resting.residualBranch (resting : Resting known sound recurse)
    (cond : Cond) (branch : BlockId) :
    Confined sound (fun arena => arena.Safe branch) (BranchAtRest known cond.prototype)
      (Reduction.residualBranch recurse cond branch) := by
  unfold Reduction.residualBranch
  refine (resting.reduceOutputs cond branch _).bind (lasting_safe branch) fun outputs => ?_
  have lasting : Lasting fun arena => arena.Safe branch ∧ OrderedMap.keys outputs =
      cond.prototype.outputs ∧ arena.AtRest known (OrderedMap.values outputs).flatten :=
    ⟨fun preserves given =>
      ⟨preserves.safe given.1, given.2.1, given.2.2.preserved preserves⟩⟩
  refine confined_makeBlock lasting (fun arena given => ?_)
    (fun _ given => coversAll_iff_covers.mpr given.2.2.covers)
    fun fresh block => confined_pure fun arena given => ?_
  · obtain ⟨block, live⟩ := given.1.live
    refine ⟨block, fun twin agrees => ?_, fun above => given.1.parent live,
      given.1.coversAll live⟩
    rw [cloneBlock, get_ok (agrees.live live).1]
    rfl
  · obtain ⟨⟨_, keys, rests⟩, safe, live⟩ := given
    refine ⟨safe, _, live,
      fun output declared => Block.bound_rebind (.inl (keys ▸ declared)), ?_⟩
    exact atRest_iff.mpr fun term inside =>
      atRest_iff.mp rests term
        (boundIn_iff_mem_flatten.mp (Block.mem_declared_rebind keys inside))

theorem Resting.reduceCond (resting : Resting known sound recurse) (cond : Cond) :
    Confined sound (fun arena => arena.Covers [cond.toTerm]) (AtRest known)
      (Reduction.reduceCond recurse cond) := by
  unfold Reduction.reduceCond
  refine ((resting cond.condition).weaken fun _ given => (covers_cond.mp given).1).bind
    (lasting_covers _) fun condition => ?_
  cases declared : cond.prototype.output? cond.channel with
  | none => exact confined_reject
  | some output =>
      simp only [Reduction.require, pure_bind]
      cases chosen : Reduction.decide? cond condition with
      | some branch =>
          refine (resting.reduceOutput cond branch output).weaken fun arena given => ?_
          obtain ⟨_, thenBlock, elseBlock⟩ := covers_cond.mp given.1
          unfold Reduction.decide? at chosen
          split at chosen
          · exact Option.some.inj chosen ▸ elseBlock
          · split at chosen
            · exact Option.some.inj chosen ▸ thenBlock
            · simp at chosen
      | none =>
          have undecided : Compound.isNormal condition = false := by
            unfold Reduction.decide? at chosen
            grind
          have lasting :=
            (lasting_covers [cond.toTerm]).and (lasting_atRest known condition)
          refine ((resting.residualBranch cond cond.thenBlock).weaken fun _ given =>
            (covers_cond.mp given.1).2.1).bind lasting fun thenBlock => ?_
          refine ((resting.residualBranch cond cond.elseBlock).weaken fun _ given =>
            (covers_cond.mp given.1.1).2.2).bind
            (lasting.and (lasting_branchAtRest cond.prototype thenBlock)) fun elseBlock => ?_
          exact confined_pure fun _ given =>
            atRest_cond { cond with condition, thenBlock, elseBlock } given.1.1.2
              undecided declared given.1.2 given.2

theorem Resting.reduceNative (resting : Resting known sound recurse)
    (native : NativeLambda) (invocation : Invocation) (output : String) :
    Confined sound (fun arena => arena.Safe native.body ∧ arena.CoversAll invocation.bindings)
      (AtRest known) (Reduction.reduceNative recurse native invocation output) := by
  have lasting := (lasting_safe native.body).and (lasting_coversAll invocation.bindings)
  unfold Reduction.reduceNative
  refine confined_make lasting (fun arena given => ?_) (fun _ given => given.2) fun scope => ?_
  · obtain ⟨block, live⟩ := given.1.live
    refine ⟨{ parent := some native.body }, fun twin agrees => ?_,
      fun above parent => Option.some.inj parent ▸ given.1, coversAll_nil⟩
    exact alloc_of_block? (agrees.live live).1
  · refine Confined.inScope ?_ fun _ given => given.2
    refine ((confined_lookup scope output).weaken fun _ given => given.2).bind
      (lasting.and (lasting_safe scope)) fun found => ?_
    cases found with
    | none => exact confined_reject
    | some value => exact (resting value).weaken fun _ given => given.2 value rfl

theorem Resting.closeCurry (curry : Curry) (task : Compound) (bindings : Bindings) :
    Confined sound
      (fun arena => arena.AtRest known task ∧ arena.AtRest known bindings.values.flatten)
      (AtRest known)
      (Reduction.closeCurry curry task bindings : PassM σ Compound) := by
  unfold Reduction.closeCurry
  split
  · exact confined_reject
  next native =>
    have lasting :=
      (lasting_covers [.lambda (.native native)]).and (lasting_coversAll bindings)
    refine ((confined_bindParams native bindings).bind lasting
      fun bound => confined_pure fun _ given => ?_).weaken fun _ given =>
      ⟨given.1.covers, coversAll_iff_covers.mpr given.2.covers⟩
    exact atRest_plain (covers_native.mpr given.2) rfl (.lambda _)
  · exact confined_reject
  next other _ _ =>
    split
    · exact confined_reject
    next open_ =>
        exact confined_pure
          fun _ given => atRest_curry given.1 given.2 (Bool.eq_false_iff.mpr open_)
  next nonempty _ _ several =>
    refine confined_pure fun _ given => ?_
    have covers :=
      covers_curry.mpr ⟨given.1.covers, coversAll_iff_covers.mpr given.2.covers⟩
    match task, nonempty, several with
    | [], nonempty, _ => exact absurd rfl nonempty
    | [only], _, several => exact absurd rfl (several only)
    | first :: second :: others, _, _ => exact atRest_plain covers rfl .curries

theorem Resting.reduceCurry (resting : Resting known sound recurse) (curry : Curry) :
    Confined sound (fun arena => arena.Covers [curry.toTerm]) (AtRest known)
      (Reduction.reduceCurry recurse curry) := by
  have parts {arena : Arena} {task : Compound} (here : curry.task = some task)
      (covers : arena.Covers [curry.toTerm]) : arena.Covers task ∧
      arena.CoversAll curry.bindings := by
    rw [Curry.toTerm, here] at covers
    exact covers_curry.mp covers
  unfold Reduction.reduceCurry
  split
  · exact confined_reject
  · exact confined_reject
  next term here =>
    refine ((resting [term]).weaken fun _ given => (parts here given).1).bind
      (lasting_covers _) fun task => ?_
    have lasting := (lasting_covers [curry.toTerm]).and (lasting_atRest known task)
    refine (confined_mapEntries_atRest lasting fun name value among =>
      (resting value).weaken fun arena given => covers_iff.mpr fun other inside => ?_).bind
      lasting fun bindings => ?_
    · exact coversAll_iff.mp (parts here given.1).2 other ⟨_, among, inside⟩
    · exact (Resting.closeCurry curry task bindings).weaken fun _ given => ⟨given.1.2, given.2⟩
  next task nonempty several here =>
    refine confined_pure fun _ given => ?_
    rw [Curry.toTerm, here] at given ⊢
    cases task with
    | nil => exact absurd rfl nonempty
    | cons first others =>
        cases others with
        | nil => exact absurd rfl (several first)
        | cons second others => exact atRest_plain given rfl .curries

variable [TicketSource σ]

/-- The source knows these outputs and no others. -/
def TicketSource.Knows (known : TicketId → Nat → Option Compound) (source : σ) : Prop :=
  ∀ id channel, TicketSource.output? source id channel = known id channel

theorem Store.literal_knows (outputs : TicketId → Nat → Option (List String)) :
    TicketSource.Literal
      (TicketSource.Knows (σ := Store)
        fun id channel => (outputs id channel).map Compound.strs) where
  granted knows granted := Store.eq_of_request granted ▸ knows
  read knows := knows
  literal _ stored := Store.literal.literal trivial stored

variable (literal : TicketSource.Literal (TicketSource.Knows (σ := σ) known))
include literal

theorem confined_resolve_atRest (placeholder : Placeholder) :
    Confined (TicketSource.Knows known) (fun _ => True) (AtRest known)
      (Reduction.resolve placeholder : PassM σ Compound) := by
  have asked : Confined (TicketSource.Knows (σ := σ) known) (fun _ => True)
      (fun _ output => output = known placeholder.ticket placeholder.channel ∧
        ∀ value, output = some value → ∀ term ∈ value, ∃ text, term = .str text)
      (ask fun source => TicketSource.read source placeholder.ticket placeholder.channel) :=
    confined_ask (fun _ => literal.read)
      fun _ knows => ⟨knows _ _, fun _ stored => literal.literal knows stored⟩
  refine asked.bind ⟨fun _ _ => trivial⟩
    fun output => confined_pure fun arena ⟨_, same, strings⟩ => ?_
  cases output with
  | none =>
      exact atRest_plain
        (covers_of_forall fun term inside => List.mem_singleton.mp inside ▸ rfl)
        rfl (.ticket same.symm)
  | some value =>
      refine atRest_iff.mpr fun term inside => ?_
      obtain ⟨text, rfl⟩ := strings value rfl term inside
      exact atRest_plain
        (covers_of_forall fun term inside => List.mem_singleton.mp inside ▸ rfl)
        rfl (.str text)

theorem Resting.reduceInvocation
    (resting : Resting known (TicketSource.Knows known) recurse)
    (invocation : Invocation) :
    Confined (TicketSource.Knows known)
      (fun arena => arena.Covers [.lambda invocation.lambda] ∧
        arena.AtRest known invocation.bindings.values.flatten) (AtRest known)
      (Reduction.reduceInvocation recurse invocation) := by
  have lasting := (lasting_covers [.lambda invocation.lambda]).and
    (lasting_atRest known invocation.bindings.values.flatten)
  unfold Reduction.reduceInvocation
  cases declared : invocation.lambda.prototype.output? invocation.channel with
  | none => exact confined_reject
  | some output =>
      simp only [Reduction.require, pure_bind]
      split
      next native task =>
        exact (resting.reduceNative native invocation output).weaken fun arena given =>
          ⟨covers_native.mp (task ▸ given.1), coversAll_iff_covers.mpr given.2.covers⟩
      next lambda task =>
        split
        · exact (confined_requestTicket literal.blockless _).bind lasting fun placeholder =>
            (confined_resolve_atRest literal placeholder).weaken fun _ _ => trivial
        next waiting =>
          have called : invocation.toApply.Called lambda := by
            refine ⟨by rw [Invocation.toApply, task], rfl,
              ⟨output, ?_⟩, Bool.eq_false_iff.mpr waiting⟩
            rw [← declared, task]
            rfl
          exact confined_pure fun _ given =>
            atRest_apply (atRest_plain given.1 rfl (.lambda _)) given.2 (.called called)

theorem Resting.reducePart (resting : Resting known (TicketSource.Knows known) recurse)
    (apply : Apply) {part : Part} (member : part ∈ apply.expand) :
    Confined (TicketSource.Knows known)
      (fun arena => arena.AtRest known apply.task ∧
        arena.AtRest known apply.bindings.values.flatten) (AtRest known)
      (Reduction.reducePart recurse part) := by
  have stems := Apply.stems_of_mem_expand member
  have narrowed {arena : Arena} {bindings : Bindings}
      (rests : arena.AtRest known apply.bindings.values.flatten)
      (among : ∀ term, BoundIn bindings term → BoundIn apply.bindings term) :
        arena.AtRest known bindings.values.flatten :=
    atRest_iff.mpr fun term inside =>
      atRest_iff.mp rests term
        (boundIn_iff_mem_flatten.mp (among term (boundIn_iff_mem_flatten.mpr inside)))
  cases part with
  | keep kept =>
      exact confined_pure fun _ given => atRest_apply
        (atRest_iff.mpr fun term inside => atRest_iff.mp given.1 term (stems.1 term inside))
        (narrowed given.2 stems.2) (.kept (Apply.kept_of_mem_expand member))
  | invoke invocation =>
      exact (resting.reduceInvocation literal invocation).weaken fun _ given =>
        ⟨(atRest_iff.mp given.1 _ stems.1).covers, narrowed given.2 stems.2⟩
  | reject error => exact confined_reject

theorem Resting.reduceApply
    (resting : Resting known (TicketSource.Knows known) recurse) (apply : Apply) :
    Confined (TicketSource.Knows known)
      (fun arena => arena.Covers [apply.toTerm]) (AtRest known)
      (Reduction.reduceApply recurse apply) := by
  unfold Reduction.reduceApply
  refine ((resting apply.task).weaken fun _ given => (covers_apply.mp given).1).bind
    (lasting_covers _) fun task => ?_
  have lasting := (lasting_covers [apply.toTerm]).and (lasting_atRest known task)
  refine (confined_mapEntries_atRest lasting fun name value among =>
    (resting value).weaken fun arena given => covers_iff.mpr fun other inside => ?_).bind
    lasting fun bindings => ?_
  · exact coversAll_iff.mp (covers_apply.mp given.1).2 other ⟨_, among, inside⟩
  · refine (confined_joinMap_atRest ((lasting_atRest known task).and
      (lasting_atRest known (OrderedMap.values bindings).flatten))
      fun part member => ?_).weaken fun _ given => ⟨given.1.2, given.2⟩
    exact resting.reducePart literal { apply with task, bindings } member

theorem Resting.reduceTerm
    (resting : Resting known (TicketSource.Knows known) recurse) (term : Term) :
    Confined (TicketSource.Knows known) (fun arena => arena.Covers [term]) (AtRest known)
      (Reduction.reduceTerm recurse term) := by
  cases term with
  | str value => exact confined_pure fun _ given => atRest_plain given rfl (.str value)
  | lambda value =>
      exact confined_pure fun _ given => atRest_plain given rfl (.lambda value)
  | name name => exact (resting.reduceName name).weaken fun _ _ => trivial
  | ticket placeholder =>
      exact (confined_resolve_atRest literal placeholder).weaken fun _ _ => trivial
  | cond condition prototype channel thenBlock elseBlock =>
      exact resting.reduceCond { condition, prototype, channel, thenBlock, elseBlock }
  | apply task bindings channel rest =>
      exact resting.reduceApply literal { task, bindings, channel, rest }
  | curry task bindings => exact resting.reduceCurry { task, bindings }

theorem resting_reduce (depth : Nat) :
    Resting known (TicketSource.Knows (σ := σ) known) (Reduction.reduce depth) := by
  induction depth with
  | zero => exact fun _ => confined_halt fun _ same => nomatch same
  | succ depth ih =>
      refine fun terms => confined_joinMap_atRest (lasting_covers terms) fun term member => ?_
      exact (ih.reduceTerm literal term).weaken fun arena given =>
        covers_singleton.mpr (covers_iff.mp given term member)

/-- Whatever the targets are, what a pass makes of them is at rest. -/
theorem resting_reduceTargets (depth : Nat) (targets : List Compound) :
    Confined (TicketSource.Knows (σ := σ) known)
      (fun arena => ∀ target ∈ targets, arena.Covers target)
      (fun arena results => arena.AtRest known results.flatten)
      (Reduction.reduceTargets depth targets : PassM σ (List Compound)) := by
  have lasting (targets : List Compound) :
      Lasting fun arena => ∀ target ∈ targets, arena.Covers target :=
    ⟨fun preserves given target among => preserves.covers (given target among)⟩
  induction targets with
  | nil => exact confined_pure fun _ _ => atRest_nil
  | cons target rest ih =>
      unfold Reduction.reduceTargets
      refine ((resting_reduce literal depth target).weaken
        fun _ given => given target List.mem_cons_self).bind (lasting _) fun head => ?_
      refine (ih.weaken
        fun _ given other among => given.1 other (List.mem_cons_of_mem _ among)).bind
        ((lasting _).and (lasting_atRest known head)) fun tail => ?_
      exact confined_pure fun _ given => atRest_append.mpr ⟨given.1.2, given.2⟩

end Cases

end TicketFlow
