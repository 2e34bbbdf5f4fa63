import Mathlib.Data.Set.BooleanAlgebra
import Mathlib.Order.CompletePartialOrder
import TicketFlow.Proofs.Arena.Reachable
import TicketFlow.Proofs.Reduction.Settlement

namespace TicketFlow

/-! Reduction stays within the arena.

From a pass that is grounded in some slots every action leads to one that is
grounded in those and in the slots of the blocks it has made, and so is what it
gives.  So no slot beyond the arena is ever accessed; the only fault left is a
chain of parents without an end.
-/

variable {σ : Type}

/-- The only fault among the reasons to halt is a chain of parents without an end. -/
def Halt.IsInherent (reason : Halt) : Prop :=
  ∀ fault, reason = .fault fault → ∃ block, fault = .endlessChain block

/-- The arena of the pass is grounded in the slots, and the scopes are among them. -/
structure Pass.Grounded (consumer : ConsumerId) (query : QueryId) (sound : σ → Prop)
    (slots : Set BlockId) (pass : Pass σ) : Prop where
  consumer : pass.consumer = consumer
  query : pass.query = query
  sound : sound pass.source
  free : pass.arena.Sound
  arena : pass.arena.Grounded slots
  root : pass.root ∈ slots
  scopes : ∀ scope ∈ pass.scopes, scope ∈ slots

/-- From a pass that is grounded in the slots the action leads to one that is grounded in
them and more; its value is good for those. -/
def PassM.Contained {α : Type} (consumer : ConsumerId) (query : QueryId)
    (sound : σ → Prop) (holds : Set BlockId → Prop) (good : Set BlockId → α → Prop)
    (action : PassM σ α) : Prop :=
  ∀ (pass : Pass σ)
    (slots : Set BlockId), pass.Grounded consumer query sound slots → holds slots →
    ∃ wider, (action pass).2.Grounded consumer query sound wider ∧ slots ⊆ wider ∧
      (∀ value, (action pass).1 = .ok value → good wider value) ∧
      ∀ reason, (action pass).1 = .error reason → reason.IsInherent

/-- The terms are grounded. -/
def Compound.Grounded (terms : Compound) (slots : Set BlockId) : Prop :=
  ∀ term ∈ terms, term.Grounded slots

def Bindings.Grounded (bindings : Bindings) (slots : Set BlockId) : Prop :=
  ∀ term, BoundIn bindings term → term.Grounded slots

section Rules

variable {α β : Type} {consumer : ConsumerId} {query : QueryId}
  {sound : σ → Prop} {holds : Set BlockId → Prop} {good : Set BlockId → α → Prop}
  {better : Set BlockId → β → Prop} {action : PassM σ α} {pass : Pass σ}

theorem Compound.Grounded.mono {terms : Compound} : Monotone terms.Grounded :=
  fun _ _ within grounded term inside => (grounded term inside).mono within

theorem Bindings.Grounded.mono {bindings : Bindings} :
    Monotone (Bindings.Grounded bindings) :=
  fun _ _ within grounded term bound => (grounded term bound).mono within

theorem monotone_mem (slot : BlockId) :
    Monotone fun slots : Set BlockId => slot ∈ slots :=
  fun _ _ within given => Set.mem_of_subset_of_mem within given

namespace PassM

theorem contained_pure {value : α} (fine : ∀ slots, holds slots → good slots value) :
    Contained consumer query sound holds good (pure value : PassM σ α) := by
  refine fun pass slots grounded given =>
    ⟨slots, grounded, subset_rfl, fun result same => ?_, fun reason same => nomatch same⟩
  obtain rfl := Except.ok.inj same
  exact fine _ given

theorem contained_reject {error : ReduceError} :
    Contained consumer query sound holds good (reject error : PassM σ α) := by
  refine fun pass slots grounded _ =>
    ⟨slots, grounded, subset_rfl, fun result same => (nomatch same), fun reason same => ?_⟩
  obtain rfl := Except.error.inj same
  exact fun fault other => nomatch other

theorem contained_exhausted :
    Contained consumer query sound holds good (halt .exhausted : PassM σ α) := by
  refine fun pass slots grounded _ =>
    ⟨slots, grounded, subset_rfl, fun result same => (nomatch same), fun reason same => ?_⟩
  obtain rfl := Except.error.inj same
  exact fun fault other => nomatch other

theorem contained_view {f : Pass σ → α}
    (fine : ∀ pass slots, pass.Grounded consumer query sound slots → holds slots →
      good slots (f pass)) : Contained consumer query sound holds good (view f) := by
  refine fun pass slots grounded given =>
    ⟨slots, grounded, subset_rfl, fun result same => ?_, fun reason same => nomatch same⟩
  obtain rfl := Except.ok.inj same
  exact fine pass slots grounded given

theorem Contained.bind {next : α → PassM σ β} (lasting : Monotone holds)
    (first : Contained consumer query sound holds good action)
    (second : ∀ value, Contained consumer query sound
      (fun slots => holds slots ∧ good slots value) better (next value)) :
    Contained consumer query sound holds better (action >>= next) := by
  intro pass slots grounded given
  obtain ⟨wider, still, within, fine, inherent⟩ := first pass slots grounded given
  rw [bind_run]
  cases outcome : action pass with
  | mk result after =>
      rw [outcome] at still fine inherent
      cases result with
      | error reason =>
          exact ⟨wider, still, within, fun value same => (nomatch same),
            fun other same => inherent other (by simpa using same)⟩
      | ok value =>
          obtain ⟨widest, last, further, better, reasons⟩ :=
            second value after wider still ⟨lasting within given, fine value rfl⟩
          exact ⟨widest, last, within.trans further, better, reasons⟩

theorem Contained.weaken {fewer : Set BlockId → Prop}
    (contained : Contained consumer query sound fewer good action)
    (weaker : ∀ slots, holds slots → fewer slots) :
    Contained consumer query sound holds good action :=
  fun pass slots grounded given => contained pass slots grounded (weaker _ given)

/-- One of the slots may be entered as a scope. -/
theorem Contained.inScope {scope : BlockId}
    (contained : Contained consumer query sound holds good action)
    (slot : ∀ slots, holds slots → scope ∈ slots) :
    Contained consumer query sound holds good (PassM.inScope scope action) := by
  intro pass slots grounded given
  have entered : (enter scope pass).Grounded consumer query sound slots :=
    { grounded with
      scopes := by
        intro other among
        rcases List.mem_cons.mp among with rfl | below
        · exact slot _ given
        · exact grounded.scopes other below }
  obtain ⟨wider, still, within, fine, reasons⟩ :=
    contained (enter scope pass) slots entered given
  exact ⟨wider,
    { still with
      scopes := fun other among => still.scopes other (List.mem_of_mem_tail among) },
    within, fine, reasons⟩

theorem Contained.whileResolving {key : BlockId × String}
    (contained : Contained consumer query sound holds good action) :
    Contained consumer query sound holds good (PassM.whileResolving key action) := by
  intro pass slots grounded given
  have begun : ({ pass with resolving := key :: pass.resolving } : Pass σ).Grounded
      consumer query sound slots :=
    { grounded with }
  obtain ⟨wider, still, within, fine, reasons⟩ := contained _ slots begun given
  exact ⟨wider, { still with }, within, fine, reasons⟩

theorem contained_joinMap {f : β → PassM σ Compound}
    {values : List β} (lasting : Monotone holds)
    (each : ∀ value ∈ values, Contained consumer query sound holds
      (fun slots result => Compound.Grounded result slots)
      (f value)) :
    Contained consumer query sound holds
      (fun slots result => Compound.Grounded result slots) (joinMap f values) := by
  induction values with
  | nil => exact contained_pure fun _ _ _ inside => absurd inside List.not_mem_nil
  | cons value rest ih =>
      rw [List.forall_mem_cons] at each
      unfold joinMap
      refine each.1.bind lasting fun head => ?_
      refine ((ih each.2).weaken fun _ given => given.1).bind
        (fun _ _ within given =>
          ⟨lasting within given.1, Compound.Grounded.mono within given.2⟩) fun tail => ?_
      refine contained_pure fun slots given term inside => ?_
      exact (List.mem_append.mp inside).elim (given.1.2 term) (given.2 term)

theorem contained_mapEntries {f : Compound → PassM σ Compound} {bindings : Bindings}
    (lasting : Monotone holds) (each : ∀ value, (∃ name, (name, value) ∈ bindings) →
      Contained consumer query sound holds
        (fun slots result => Compound.Grounded result slots) (f value)) :
    Contained consumer query sound holds
      (fun slots results => Bindings.Grounded results slots) (mapEntries f bindings) := by
  induction bindings with
  | nil => exact contained_pure fun _ _ _ bound => absurd bound boundIn_nil
  | cons binding rest ih =>
      obtain ⟨name, value⟩ := binding
      unfold mapEntries
      refine (each value ⟨name, List.mem_cons_self⟩).bind lasting fun head => ?_
      have others :=
        ih fun value among => each value (among.imp fun _ => List.mem_cons_of_mem _)
      refine (others.weaken fun _ given => given.1).bind
        (fun _ _ within given =>
          ⟨lasting within given.1, Compound.Grounded.mono within given.2⟩) fun tail => ?_
      refine contained_pure fun slots given term bound => ?_
      exact (boundIn_cons.mp bound).elim (given.1.2 term) (given.2 term)

end PassM

end Rules

section Arena

variable {arena : Arena} {slot : BlockId} {name : String} {slots : Set BlockId}

/-- From one of the slots, the only fault of a search is that it does not end. -/
theorem Arena.Grounded.lookupWithin_error (grounded : arena.Grounded slots)
    {steps : Nat} (within : slot ∈ slots) {fault : Arena.Fault}
    (failed : arena.lookupWithin name steps slot = .error fault) :
    ∃ block, fault = .endlessChain block := by
  induction steps generalizing slot with
  | zero => exact ⟨slot, (Except.error.inj failed).symm⟩
  | succ steps ih =>
      obtain ⟨block, stored⟩ := Arena.block?_of_lt (grounded.slot within)
      simp only [Arena.lookupWithin, Arena.get_ok stored] at failed
      split at failed
      · simp at failed
      · split at failed
        next above parent => exact ih (grounded.parent within stored parent) failed
        next => simp at failed

/-- What it finds is bound in one of the slots. -/
theorem Arena.Grounded.lookupWithin_ok (grounded : arena.Grounded slots)
    {steps : Nat} (within : slot ∈ slots) {value : Compound}
    (found : arena.lookupWithin name steps slot = .ok (some value)) :
    Compound.Grounded value slots := by
  induction steps generalizing slot with
  | zero => simp [Arena.lookupWithin] at found
  | succ steps ih =>
      obtain ⟨block, stored⟩ := Arena.block?_of_lt (grounded.slot within)
      simp only [Arena.lookupWithin, Arena.get_ok stored] at found
      split at found
      next value bound =>
        obtain rfl := Option.some.inj (Except.ok.inj found)
        exact fun term inside =>
          grounded.bound within stored ⟨_, OrderedMap.mem_of_get? bound, inside⟩
      next =>
        split at found
        next above parent => exact ih (grounded.parent within stored parent) found
        next => simp at found

theorem Arena.Grounded.lookup_ok (grounded : arena.Grounded slots) (within : slot ∈ slots)
    {value : Compound} (found : arena.lookup slot name = .ok (some value)) :
    Compound.Grounded value slots := by
  obtain ⟨block, stored⟩ := Arena.block?_of_lt (grounded.slot within)
  simp only [Arena.lookup, stored] at found
  exact grounded.lookupWithin_ok within found

theorem Arena.Grounded.lookup_error (grounded : arena.Grounded slots)
    (within : slot ∈ slots) {fault : Arena.Fault}
    (failed : arena.lookup slot name = .error fault) :
    ∃ block, fault = .endlessChain block := by
  obtain ⟨block, stored⟩ := Arena.block?_of_lt (grounded.slot within)
  simp only [Arena.lookup, stored] at failed
  exact grounded.lookupWithin_error within failed

end Arena

section Cases

variable {consumer : ConsumerId} {query : QueryId} {sound : σ → Prop}
  {recurse : Compound → PassM σ Compound}

/-- Grounded terms reduce to grounded terms. -/
def Containing (consumer : ConsumerId) (query : QueryId) (sound : σ → Prop)
    (recurse : Compound → PassM σ Compound) : Prop :=
  ∀ terms, PassM.Contained consumer query sound terms.Grounded
    (fun slots result => Compound.Grounded result slots) (recurse terms)

open PassM

theorem contained_lookup (scope : BlockId) (name : String) :
    Contained consumer query sound (fun slots => scope ∈ slots)
      (fun slots found => ∀ value, found = some value → Compound.Grounded value slots)
      (inspect fun arena => arena.lookup scope name : PassM σ (Option Compound)) := by
  intro pass slots grounded within
  unfold inspect
  split
  next found read =>
    refine ⟨slots, grounded, subset_rfl, fun result same value some_ => ?_,
      fun reason same => nomatch same⟩
    obtain rfl := Except.ok.inj same
    subst some_
    exact grounded.arena.lookup_ok within read
  next fault read =>
    refine ⟨slots, grounded, subset_rfl, fun result same => (nomatch same),
      fun reason same other is => ?_⟩
    obtain rfl := Except.error.inj same
    obtain rfl := Halt.fault.inj is
    exact grounded.arena.lookup_error within read

theorem contained_getLocal (scope : BlockId) (name : String) :
    Contained consumer query sound (fun slots => scope ∈ slots)
      (fun slots found => ∀ value, found = some value → Compound.Grounded value slots)
      (inspect fun arena => arena.getLocal scope name : PassM σ (Option Compound)) := by
  intro pass slots grounded within
  obtain ⟨block, stored⟩ := Arena.block?_of_lt (grounded.arena.slot within)
  have read : pass.arena.getLocal scope name = .ok (block.get? name) := by
    rw [Arena.getLocal, Arena.get_ok stored]
    rfl
  have ran :
      (inspect fun arena => arena.getLocal scope name : PassM σ (Option Compound)) pass =
        (.ok (block.get? name), pass) := by
    simp [inspect, read]
  rw [ran]
  refine ⟨slots, grounded, subset_rfl, fun result same value some_ term inside => ?_,
    fun reason same => nomatch same⟩
  obtain rfl := Except.ok.inj same
  exact grounded.arena.bound within stored ⟨_, OrderedMap.mem_of_get? some_, inside⟩

/-- A block is made below one of the slots, or as a copy of one, and bound anew. -/
theorem contained_make {α : Type} {make : Arena → Except Arena.Fault (BlockId × Arena)}
    {bindings : Bindings} {next : BlockId → PassM σ α} {holds : Set BlockId → Prop}
    {good : Set BlockId → α → Prop} (lasting : Monotone holds)
    (makes : ∀ (arena : Arena)
      (slots : Set BlockId), arena.Sound → arena.Grounded slots → holds slots →
      ∃ fresh after block, make arena = .ok (fresh, after) ∧ arena.Extends after
        fresh block ∧ (∀ above, block.parent = some above → above ∈ slots) ∧
        Bindings.Grounded block.bindings slots)
    (bound : ∀ slots, holds slots → Bindings.Grounded bindings slots)
    (continues : ∀ fresh, Contained consumer query sound
      (fun slots => holds slots ∧ fresh ∈ slots) good (next fresh)) :
    Contained consumer query sound holds good
      (build make >>= fun fresh =>
        build (fun arena => (arena.bindAll fresh bindings).map ((), ·)) >>= fun _ =>
        next fresh) := by
  intro pass slots grounded given
  obtain ⟨fresh, after, block, made, extends_, parent, inBlock⟩ :=
    makes pass.arena slots grounded.free grounded.arena given
  obtain ⟨final, rebound, whole⟩ := extends_.bindAll bindings
  have wider : slots ⊆ slots ∪ {fresh} := Set.subset_union_left
  have still : ({ pass with arena := final } : Pass σ).Grounded consumer query sound
      (slots ∪ {fresh}) :=
    { consumer := grounded.consumer
      query := grounded.query
      sound := grounded.sound
      free := whole.sound
      arena := grounded.arena.extend whole parent fun term ⟨entry, member, inside⟩ =>
        (Block.mem_rebind member).elim (fun new => bound _ given term ⟨entry, new, inside⟩)
          fun old => inBlock term ⟨entry, old, inside⟩
      root := wider grounded.root
      scopes := fun scope among => wider (grounded.scopes scope among) }
  obtain ⟨widest, last, further, fine, reasons⟩ :=
    continues fresh { pass with arena := final } _ still ⟨lasting wider given, .inr rfl⟩
  have first : build make pass = (.ok fresh, { pass with arena := after }) := by
    simp [build, made]
  have second : build (fun arena => (arena.bindAll fresh bindings).map ((), ·))
      { pass with arena := after } = (.ok (), { pass with arena := final }) := by
    simp [build, rebound, Except.map]
  simp only [bind_run, first, second]
  exact ⟨widest, last, wider.trans further, fine, reasons⟩

theorem Containing.reduceName
    (containing : Containing consumer query sound recurse) (name : String) :
    Contained consumer query sound (fun _ => True)
      (fun slots result => Compound.Grounded result slots)
      (Reduction.reduceName recurse name) := by
  have stays {holds : Set BlockId → Prop} : Contained consumer query sound holds
      (fun slots result => Compound.Grounded result slots)
      (pure [.name name] : PassM σ Compound) :=
    contained_pure fun _ _ _ inside => List.mem_singleton.mp inside ▸ .name name
  have entered : Contained consumer query sound (fun _ => True)
      (fun slots scope => scope ∈ slots) (view Pass.scope : PassM σ BlockId) := by
    refine contained_view fun pass slots grounded _ => ?_
    unfold Pass.scope
    cases innermost : pass.scopes.head? with
    | none => exact grounded.root
    | some scope => exact grounded.scopes scope (List.mem_of_mem_head? innermost)
  unfold Reduction.reduceName
  refine entered.bind monotone_const fun scope => ?_
  refine ((contained_lookup scope name).weaken fun _ given => given.2).bind
    (fun _ _ within given => ⟨trivial, within given.2⟩) fun found => ?_
  cases found with
  | none => exact stays
  | some bound =>
      refine Contained.weaken ?_ fun _ given => given.2 bound rfl
      have views : Contained consumer query sound (Compound.Grounded bound) (fun _ _ => True)
          (view fun pass => pass.resolving.contains (scope, name) : PassM σ Bool) :=
        contained_view fun _ _ _ _ => trivial
      refine views.bind Compound.Grounded.mono fun resolving => ?_
      cases resolving with
      | true => exact stays
      | false => exact ((containing bound).weaken fun _ given => given.1).whileResolving

theorem Containing.reduceOutput (containing : Containing consumer query sound recurse)
    (cond : Cond) (branch : BlockId) (output : String) :
    Contained consumer query sound (fun slots => branch ∈ slots)
      (fun slots result => Compound.Grounded result slots)
      (Reduction.reduceOutput recurse cond branch output) := by
  unfold Reduction.reduceOutput
  refine (contained_getLocal branch output).bind (monotone_mem branch) fun found => ?_
  cases found with
  | none => exact contained_reject
  | some value =>
      refine Contained.inScope ?_ fun _ given => given.1
      exact (containing value).weaken fun _ given => given.2 value rfl

theorem Containing.reduceOutputs (containing : Containing consumer query sound recurse)
    (cond : Cond) (branch : BlockId) (names : List String) :
    Contained consumer query sound (fun slots => branch ∈ slots)
      (fun slots outputs => Bindings.Grounded outputs slots)
      (Reduction.reduceOutputs recurse cond branch names) := by
  have lasting := monotone_mem branch
  induction names with
  | nil => exact contained_pure fun _ _ _ bound => absurd bound boundIn_nil
  | cons name rest ih =>
      unfold Reduction.reduceOutputs
      refine (containing.reduceOutput cond branch name).bind lasting fun value => ?_
      refine (ih.weaken fun _ given => given.1).bind
        (fun _ _ within given =>
          ⟨lasting within given.1, Compound.Grounded.mono within given.2⟩) fun others => ?_
      refine contained_pure fun slots given term bound => ?_
      exact (boundIn_cons.mp bound).elim (given.1.2 term) (given.2 term)

theorem Containing.residualBranch (containing : Containing consumer query sound recurse)
    (cond : Cond) (branch : BlockId) :
    Contained consumer query sound (fun slots => branch ∈ slots)
      (fun slots fresh => fresh ∈ slots)
      (Reduction.residualBranch recurse cond branch) := by
  have lasting := monotone_mem branch
  unfold Reduction.residualBranch
  refine (containing.reduceOutputs cond branch _).bind lasting fun outputs => ?_
  refine contained_make
    (fun _ _ within given => ⟨lasting within given.1, Bindings.Grounded.mono within given.2⟩)
    (fun arena slots sound grounded given => ?_) (fun _ given => given.2) fun fresh =>
      contained_pure fun _ given => given.2
  obtain ⟨block, stored⟩ := Arena.block?_of_lt (grounded.slot given.1)
  exact ⟨_, _, block, Arena.cloneBlock_of_block? stored, sound.insert block,
    fun _ => grounded.parent given.1 stored, fun _ => grounded.bound given.1 stored⟩

theorem Containing.reduceCond (containing : Containing consumer query sound recurse)
    (cond : Cond) : Contained consumer query sound (Compound.Grounded [cond.toTerm])
      (fun slots result => Compound.Grounded result slots)
      (Reduction.reduceCond recurse cond) := by
  have parts {slots : Set BlockId} (grounded : Compound.Grounded [cond.toTerm] slots) :
      Compound.Grounded cond.condition slots ∧ cond.thenBlock ∈ slots ∧
      cond.elseBlock ∈ slots := by
    cases grounded _ List.mem_cons_self with
    | cond condition thenBlock elseBlock => exact ⟨condition, thenBlock, elseBlock⟩
  unfold Reduction.reduceCond
  refine ((containing cond.condition).weaken fun _ given => (parts given).1).bind
    Compound.Grounded.mono fun condition => ?_
  cases cond.prototype.output? cond.channel with
  | none => exact contained_reject
  | some output =>
      simp only [Reduction.require, pure_bind]
      cases chosen : Reduction.decide? cond condition with
      | some branch =>
          refine (containing.reduceOutput cond branch output).weaken fun slots given => ?_
          have either : branch = cond.elseBlock ∨ branch = cond.thenBlock := by
            unfold Reduction.decide? at chosen
            split at chosen
            · exact .inl (Option.some.inj chosen).symm
            · split at chosen
              · exact .inr (Option.some.inj chosen).symm
              · simp at chosen
          rcases either with rfl | rfl
          · exact (parts given.1).2.2
          · exact (parts given.1).2.1
      | none =>
          have lasting : Monotone fun slots => Compound.Grounded [cond.toTerm] slots ∧
              Compound.Grounded condition slots :=
            fun _ _ within given =>
              ⟨Compound.Grounded.mono within given.1, Compound.Grounded.mono within given.2⟩
          refine ((containing.residualBranch cond cond.thenBlock).weaken fun _ given =>
            (parts given.1).2.1).bind lasting fun thenBlock => ?_
          refine ((containing.residualBranch cond cond.elseBlock).weaken fun _ given =>
            (parts given.1.1).2.2).bind
            (fun _ _ within given => ⟨lasting within given.1, within given.2⟩)
            fun elseBlock => ?_
          refine contained_pure fun slots given term inside => ?_
          obtain rfl := List.mem_singleton.mp inside
          exact .cond given.1.1.2 given.1.2 given.2

theorem Containing.reduceNative (containing : Containing consumer query sound recurse)
    (native : NativeLambda) (invocation : Invocation) (output : String) :
    Contained consumer query sound
      (fun slots => native.body ∈ slots ∧ Bindings.Grounded invocation.bindings slots)
      (fun slots result => Compound.Grounded result slots)
      (Reduction.reduceNative recurse native invocation output) := by
  unfold Reduction.reduceNative
  refine contained_make
    (fun _ _ within given => ⟨within given.1, Bindings.Grounded.mono within given.2⟩)
    (fun arena slots sound grounded given => ?_) (fun _ given => given.2) fun scope => ?_
  · have made : arena.alloc (some native.body) =
        .ok (arena.insert { parent := some native.body }) := by
      simp [Arena.alloc, grounded.slot given.1]
    refine ⟨_, _, _, made, sound.insert _, fun above parent => ?_,
      fun _ bound => absurd bound boundIn_nil⟩
    exact Option.some.inj parent ▸ given.1
  · refine Contained.inScope ?_ fun _ given => given.2
    refine ((contained_lookup scope output).weaken fun _ given => given.2).bind
      (fun _ _ within given => ⟨⟨within given.1.1, Bindings.Grounded.mono within given.1.2⟩,
        within given.2⟩) fun found => ?_
    cases found with
    | none => exact contained_reject
    | some value => exact (containing value).weaken fun _ given => given.2 value rfl

variable [TicketSource σ] {known : σ → Placeholder → Prop}
  (accounts : Accounts consumer query sound known)
include accounts

theorem contained_resolve (placeholder : Placeholder) {holds : Set BlockId → Prop} :
    Contained consumer query sound holds (fun slots result => Compound.Grounded result slots)
      (Reduction.resolve placeholder : PassM σ Compound) := by
  intro pass slots grounded _
  rw [Reduction.resolve_run]
  refine ⟨slots, { grounded with sound := (accounts.read grounded.sound rfl).1 },
    subset_rfl, fun result same term inside => ?_, fun _ same => nomatch same⟩
  rw [← Except.ok.inj same] at inside
  cases stored : TicketSource.output? pass.source placeholder.ticket placeholder.channel with
  | none =>
      simp only [stored, Option.getD_none, List.mem_singleton] at inside
      subst inside
      exact .ticket placeholder
  | some value =>
      simp only [stored, Option.getD_some] at inside
      obtain ⟨text, rfl⟩ := accounts.literal grounded.sound stored term inside
      exact .str text

theorem contained_requestTicket {invocation : Invocation}
    {output : String} {holds : Set BlockId → Prop}
    (offered : invocation.lambda.prototype.output? invocation.channel = some output) :
    Contained consumer query sound holds (fun _ _ => True)
      (Reduction.requestTicket invocation.toApply : PassM σ Placeholder) := by
  intro pass slots grounded _
  obtain rfl := grounded.consumer
  obtain rfl := grounded.query
  unfold Reduction.requestTicket
  split
  next placeholder source granted =>
    have still := (accounts.request grounded.sound offered granted).1
    exact ⟨slots, { grounded with sound := still }, subset_rfl, fun _ _ => trivial,
      fun reason same => nomatch same⟩
  next error _ =>
    refine ⟨slots, grounded, subset_rfl, fun result same => (nomatch same),
      fun reason same fault is => ?_⟩
    obtain rfl := Except.error.inj same
    cases is

theorem Containing.reduceInvocation (containing : Containing consumer query sound recurse)
    (invocation : Invocation) : Contained consumer query sound
      (fun slots => Term.Grounded slots (.lambda invocation.lambda) ∧ Bindings.Grounded
        invocation.bindings slots) (fun slots result => Compound.Grounded result slots)
      (Reduction.reduceInvocation recurse invocation) := by
  have lasting : Monotone fun slots =>
      Term.Grounded slots (.lambda invocation.lambda) ∧
        Bindings.Grounded invocation.bindings slots :=
    fun _ _ within given => ⟨given.1.mono within, Bindings.Grounded.mono within given.2⟩
  unfold Reduction.reduceInvocation
  cases offered : invocation.lambda.prototype.output? invocation.channel with
  | none => exact contained_reject
  | some output =>
      simp only [Reduction.require, pure_bind]
      split
      next native task =>
        refine (containing.reduceNative native invocation output).weaken
          fun slots given => ⟨?_, given.2⟩
        cases given.1 with
        | lambda body => exact body native task
      next lambda task =>
        split
        · exact (contained_requestTicket accounts offered).bind lasting fun placeholder =>
            contained_resolve accounts placeholder
        · refine contained_pure fun slots given term inside => ?_
          obtain rfl := List.mem_singleton.mp inside
          exact .apply (fun other among => List.mem_singleton.mp among ▸ given.1) given.2

theorem Containing.reducePart (containing : Containing consumer query sound recurse)
    {apply : Apply} {part : Part} (stems : part.StemsFrom apply) :
    Contained consumer query sound
      (fun slots => Compound.Grounded apply.task slots ∧ Bindings.Grounded apply.bindings
        slots) (fun slots result => Compound.Grounded result slots)
      (Reduction.reducePart recurse part) := by
  cases part with
  | keep kept =>
      refine contained_pure fun slots given term inside => ?_
      obtain rfl := List.mem_singleton.mp inside
      exact .apply (fun other among => given.1 other (stems.1 other among))
        fun other bound => given.2 other (stems.2 other bound)
  | invoke invocation =>
      exact (containing.reduceInvocation accounts invocation).weaken fun slots given =>
        ⟨given.1 _ stems.1, fun other bound => given.2 other (stems.2 other bound)⟩
  | reject error => exact contained_reject

theorem Containing.reduceApply (containing : Containing consumer query sound recurse)
    (apply : Apply) : Contained consumer query sound (Compound.Grounded [apply.toTerm])
      (fun slots result => Compound.Grounded result slots)
      (Reduction.reduceApply recurse apply) := by
  have parts {slots : Set BlockId} (grounded : Compound.Grounded [apply.toTerm] slots) :
      Compound.Grounded apply.task slots ∧ Bindings.Grounded apply.bindings slots := by
    cases grounded _ List.mem_cons_self with
    | apply task arguments => exact ⟨task, arguments⟩
  unfold Reduction.reduceApply
  refine ((containing apply.task).weaken fun _ given => (parts given).1).bind
    Compound.Grounded.mono fun task => ?_
  have lasting : Monotone fun slots => Compound.Grounded [apply.toTerm] slots ∧
      Compound.Grounded task slots :=
    fun _ _ within given =>
      ⟨Compound.Grounded.mono within given.1, Compound.Grounded.mono within given.2⟩
  refine (contained_mapEntries lasting fun value ⟨name, among⟩ => (containing value).weaken
    fun _ given term inside => (parts given.1).2 term ⟨_, among, inside⟩).bind lasting
    fun bindings => ?_
  refine (contained_joinMap (fun _ _ within given =>
    ⟨Compound.Grounded.mono within given.1, Bindings.Grounded.mono within given.2⟩)
    fun part member => ?_).weaken fun _ given => And.intro given.1.2 given.2
  exact containing.reducePart accounts (Apply.stems_of_mem_expand member)

theorem Containing.reduceTerm
    (containing : Containing consumer query sound recurse) (term : Term) :
    Contained consumer query sound (Compound.Grounded [term])
      (fun slots result => Compound.Grounded result slots)
      (Reduction.reduceTerm recurse term) := by
  have stays : Contained consumer query sound (Compound.Grounded [term])
      (fun slots result => Compound.Grounded result slots) (pure [term] : PassM σ Compound) :=
    contained_pure fun _ given => given
  cases term with
  | str value => exact stays
  | lambda value => exact stays
  | name name => exact (containing.reduceName name).weaken fun _ _ => trivial
  | ticket placeholder => exact contained_resolve accounts placeholder
  | cond condition prototype channel thenBlock elseBlock =>
      exact containing.reduceCond { condition, prototype, channel, thenBlock, elseBlock }
  | apply task bindings channel rest =>
      exact containing.reduceApply accounts { task, bindings, channel, rest }
  | curry task bindings =>
      -- no curry is grounded
      exact fun pass _ _ given => nomatch given _ List.mem_cons_self

theorem Accounts.containing_reduce (depth : Nat) :
    Containing consumer query sound
      (Reduction.reduce depth : Compound → PassM σ Compound) := by
  induction depth with
  | zero => exact fun _ => contained_exhausted
  | succ depth ih =>
      refine fun terms => contained_joinMap Compound.Grounded.mono fun term member => ?_
      refine (ih.reduceTerm accounts term).weaken fun slots given other inside => ?_
      exact List.mem_singleton.mp inside ▸ given term member

theorem Accounts.contained_reduceTargets (depth : Nat) (targets : List Compound) :
    Contained consumer query sound (Compound.Grounded targets.flatten)
      (fun slots results => Compound.Grounded results.flatten slots)
      (Reduction.reduceTargets depth targets : PassM σ (List Compound)) := by
  induction targets with
  | nil => exact contained_pure fun _ given => given
  | cons target rest ih =>
      unfold Reduction.reduceTargets
      refine ((accounts.containing_reduce depth target).weaken fun _ given term inside =>
        given term (List.mem_append_left _ inside)).bind Compound.Grounded.mono fun head => ?_
      refine (ih.weaken fun _ given term inside =>
        given.1 term (List.mem_append_right _ inside)).bind (fun _ _ within given =>
        ⟨Compound.Grounded.mono within given.1, Compound.Grounded.mono within given.2⟩)
        fun tail => ?_
      refine contained_pure fun _ given term inside => ?_
      exact (List.mem_append.mp inside).elim (given.1.2 term) (given.2 term)

/-- Reducing a grounded context leaves a grounded context, and does not access a
slot beyond its arena. -/
theorem Context.Grounded.reduce {context : Context} (grounded : context.Grounded)
    (free : context.arena.Sound) {source : σ} (holds : sound source) (depth : Nat) :
    (context.reduce depth source consumer query).context.Grounded ∧
      ∀ reason, (context.reduce depth source consumer query).outcome = .error reason →
        reason.IsInherent := by
  obtain ⟨slots, arena, root, targets⟩ := grounded_iff.mp grounded
  have begins : (Pass.start consumer query source context.arena context.root).Grounded
      consumer query sound slots :=
    { consumer := rfl
      query := rfl
      sound := holds
      free := free
      arena := arena
      root := root
      scopes := fun _ among => absurd among List.not_mem_nil }
  obtain ⟨wider, still, within, fine, reasons⟩ :=
    accounts.contained_reduceTargets depth context.targets _ slots begins targets
  unfold Context.reduce
  cases outcome : Reduction.reduceTargets depth context.targets
      (Pass.start consumer query source context.arena context.root) with
  | mk result after =>
      rw [outcome] at still fine reasons
      cases result with
      | error reason =>
          refine ⟨grounded_iff.mpr ⟨wider, still.arena, within root, fun term inside => ?_⟩,
            fun other same => ?_⟩
          · exact (targets term inside).mono within
          · exact Except.error.inj same ▸ reasons reason rfl
      | ok results =>
          obtain ⟨kept, arena, roots, live⟩ :=
            @Arena.Grounded.collected after.arena wider [context.root] results still.arena
              (fun entry among => List.mem_singleton.mp among ▸ within root)
              (fine results rfl)
          exact ⟨grounded_iff.mpr ⟨kept, arena, roots _ (List.mem_singleton_self _), live⟩,
            fun reason same => nomatch same⟩

end Cases

end TicketFlow
