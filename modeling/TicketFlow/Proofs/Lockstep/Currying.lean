import TicketFlow.Proofs.Data.SortedMap
import TicketFlow.Proofs.Lockstep.Numbering
import TicketFlow.Proofs.Lockstep.Steps
import TicketFlow.Proofs.Reduction.Depth
import TicketFlow.Proofs.Timing.Acceptance

namespace TicketFlow

/-! Currying, then applying, is applying.

The arguments of a call of a native lambda may be given at once, or some of them may
be bound by a curry to which the others are applied.  At once, all of them stand in
one scope below the body.  In two steps the curried ones stand in a copy of the
body, and the others in a scope below the copy.  From either scope the same is
found, so the two calls go abreast from then on.
-/

variable {σ : Type}

/-- The start of a pass over the context, with an empty journal. -/
def Context.outset (context : Context) (consumer : ConsumerId) (query : QueryId)
    (source : σ) : Pass (Journal σ) :=
  Pass.start consumer query { source } context.arena context.root

/-- A call of a native lambda, with its arguments in two parts. -/
structure SplitCall where
  native : NativeLambda
  channel : Nat
  arguments : Bindings
  curried : Bindings
  applied : Bindings

namespace SplitCall

def atOnce (call : SplitCall) : Apply where
  task := [.lambda (.native call.native)]
  bindings := call.arguments
  channel := call.channel

def curry (call : SplitCall) : Curry where
  task := some [.lambda (.native call.native)]
  bindings := call.curried

/-- The curry with the one part of the arguments, applied to the other part. -/
def inTwo (call : SplitCall) : Apply where
  task := [call.curry.toTerm]
  bindings := call.applied
  channel := call.channel

/-- What is left of the lambda once the one part is bound in a copy of its body. -/
def remainder (call : SplitCall) (body : BlockId) : NativeLambda where
  prototype := call.curried.keys.foldl Prototype.erase call.native.prototype
  body

/-- The lambda has the output, the arguments are values, one for each
parameter that is iterated over and any number for the others, and each name
is either curried or applied. -/
structure Concrete (call : SplitCall) : Prop where
  offered : ∃ output, call.native.prototype.output? call.channel = some output
  distinct : OrderedMap.Distinct call.arguments
  normal : ∀ binding ∈ call.arguments, Compound.isNormal binding.2 = true
  aggregates :
    ∀ param ∈ call.native.prototype.aggregates, call.arguments.contains param = true
  iterated :
    ∀ param ∈ call.native.prototype.iterated,
    ∃ value, call.arguments.get? param = some [value]
  split : (call.curried ++ call.applied).Perm call.arguments

end SplitCall

namespace Prototype

variable {names : List String} {prototype : Prototype}

theorem output?_foldl_erase (channel : Nat) :
    (names.foldl erase prototype).output? channel = prototype.output? channel := by
  induction names generalizing prototype with
  | nil => rfl
  | cons name rest ih =>
      rw [List.foldl_cons, ih]
      cases channel <;> rfl

theorem mem_params_foldl_erase {param : Param}
    (among : param ∈ (names.foldl erase prototype).params) :
    param ∈ prototype.params ∧ param.name ∉ names := by
  induction names generalizing prototype with
  | nil => exact ⟨among, List.not_mem_nil⟩
  | cons name rest ih =>
      obtain ⟨inside, absent⟩ := ih among
      obtain ⟨declared, apart⟩ := List.mem_filter.mp inside
      exact ⟨declared, List.not_mem_cons_of_ne_of_not_mem (bne_iff_ne.mp apart) absent⟩

/-- What is left to iterate over once some parameters are bound. -/
theorem mem_iterated_foldl_erase {name : String}
    (among : name ∈ (names.foldl erase prototype).iterated) :
    name ∈ prototype.iterated ∧ name ∉ names := by
  obtain ⟨param, inside, rfl⟩ := List.mem_map.mp among
  obtain ⟨left, plain⟩ := List.mem_filter.mp inside
  obtain ⟨declared, absent⟩ := mem_params_foldl_erase left
  exact ⟨List.mem_map.mpr ⟨param, List.mem_filter.mpr ⟨declared, plain⟩, rfl⟩, absent⟩

theorem mem_aggregates_foldl_erase {name : String}
    (among : name ∈ (names.foldl erase prototype).aggregates) :
    name ∈ prototype.aggregates ∧ name ∉ names := by
  obtain ⟨param, inside, rfl⟩ := List.mem_map.mp among
  obtain ⟨left, whole⟩ := List.mem_filter.mp inside
  obtain ⟨declared, absent⟩ := mem_params_foldl_erase left
  exact ⟨List.mem_map.mpr ⟨param, List.mem_filter.mpr ⟨declared, whole⟩, rfl⟩, absent⟩

end Prototype

/-- Values for what is iterated over, in a map with distinct names. -/
theorem Invocation.Single.of_distinct {invocation : Invocation}
    (distinct : OrderedMap.Distinct invocation.bindings)
    (normal : ∀ binding ∈ invocation.bindings, Compound.isNormal binding.2 = true)
    (bound : ∀ param ∈ invocation.lambda.prototype.aggregates,
      invocation.bindings.contains param = true)
    (picked : ∀ param ∈ invocation.lambda.prototype.iterated,
      ∃ value, invocation.bindings.get? param = some [value]) : invocation.Single := by
  refine ⟨bound, fun param iterates => ?_⟩
  obtain ⟨value, found⟩ := picked param iterates
  have single := normal _ (OrderedMap.mem_of_get? found)
  refine ⟨value, by simpa [Compound.isNormal] using single, found,
    fun entry member named => ?_⟩
  have stored := (OrderedMap.mem_iff_get? distinct).mp member
  rw [named, found] at stored
  exact (Option.some.inj stored).symm

namespace SplitCall.Concrete

variable {call : SplitCall} (concrete : call.Concrete)
include concrete

section Parts

variable {name : String}

theorem distinct_append : OrderedMap.Distinct (call.curried ++ call.applied) :=
  concrete.distinct.perm concrete.split

theorem distinct_curried : OrderedMap.Distinct call.curried :=
  concrete.distinct_append.sublist ((List.sublist_append_left _ _).map Prod.fst)

theorem distinct_applied : OrderedMap.Distinct call.applied :=
  concrete.distinct_append.sublist ((List.sublist_append_right _ _).map Prod.fst)

theorem mem_arguments {binding : String × Compound}
    (among : binding ∈ call.curried ∨ binding ∈ call.applied) :
    binding ∈ call.arguments :=
  concrete.split.mem_iff.mp (List.mem_append.mpr among)

/-- Every argument stands in one of the two parts. -/
theorem get?_arguments (name : String) :
    call.arguments.get? name = (call.applied.get? name).or (call.curried.get? name) := by
  have parts : (call.applied ++ call.curried).Perm call.arguments :=
    List.perm_append_comm.trans concrete.split
  rw [← concrete.distinct.get?_perm parts, OrderedMap.get?_append]

theorem get?_applied (free : name ∉ call.curried.keys) :
    call.applied.get? name = call.arguments.get? name := by
  rw [concrete.get?_arguments, OrderedMap.get?_eq_none free, Option.or_none]

theorem single_atOnce :
    Invocation.Single ⟨.native call.native, call.arguments, call.channel⟩ :=
  .of_distinct concrete.distinct concrete.normal concrete.aggregates concrete.iterated

theorem single_inTwo (body : BlockId) :
    Invocation.Single ⟨.native (call.remainder body), call.applied, call.channel⟩ := by
  have normal (binding : String × Compound)
      (among : binding ∈ call.applied) : Compound.isNormal binding.2 = true :=
    concrete.normal binding (concrete.mem_arguments (.inr among))
  refine .of_distinct concrete.distinct_applied normal
    (fun param among => ?_) fun param among => ?_
  · obtain ⟨aggregate, free⟩ := Prototype.mem_aggregates_foldl_erase among
    have bound := concrete.aggregates param aggregate
    rwa [OrderedMap.contains, ← concrete.get?_applied free] at bound
  · obtain ⟨iterates, free⟩ := Prototype.mem_iterated_foldl_erase among
    obtain ⟨value, bound⟩ := concrete.iterated param iterates
    exact ⟨value, (concrete.get?_applied free).trans bound⟩

end Parts

end SplitCall.Concrete

namespace Reduction

variable [TicketSource σ] {depth : Nat} {terms : Compound} {bindings : Bindings}
  {pass told before : Pass σ} {recurse : Compound → PassM σ Compound}

/-- Values stay as they are. -/
theorem reduce_values (normal : Compound.isNormal terms = true) :
    (reduce (depth + 1) terms : PassM σ Compound) = pure terms := by
  unfold reduce
  induction terms with
  | nil => rfl
  | cons term rest ih =>
      obtain ⟨here, later⟩ := Bool.and_eq_true_iff.mp normal
      have value : (reduceTerm (reduce depth) term : PassM σ Compound) = pure [term] := by
        cases term with
        | str | lambda => rfl
        | _ => exact absurd here Bool.false_ne_true
      simp only [PassM.joinMap, value, ih later, pure_bind, List.singleton_append]

theorem mapEntries_values
    (normal : ∀ binding ∈ bindings, Compound.isNormal binding.2 = true) :
    (PassM.mapEntries (reduce (depth + 1)) bindings : PassM σ Bindings) = pure bindings := by
  induction bindings with
  | nil => rfl
  | cons binding rest ih =>
      obtain ⟨here, later⟩ := List.forall_mem_cons.mp normal
      have value : (reduce (depth + 1) binding.2 : PassM σ Compound) = pure binding.2 :=
        reduce_values here
      simp only [PassM.mapEntries, value, ih later, pure_bind]

/-- An application that comes to one invocation. -/
theorem reduceApply_single {apply : Apply}
    {invocation : Invocation} (single : invocation.Single)
    (task : recurse apply.task pass = (.ok [.lambda invocation.lambda], told))
    (arguments : PassM.mapEntries recurse apply.bindings told =
      (.ok invocation.bindings, before))
    (channel : invocation.channel = apply.channel) (whole : apply.rest = false) :
    reduceApply recurse apply pass = reduceInvocation recurse invocation before := by
  have same :
      ({ apply with task := [.lambda invocation.lambda], bindings := invocation.bindings } :
        Apply) = invocation.toApply := by
    rw [Invocation.toApply, channel, whole]
  simp only [reduceApply, PassM.bind_run, task, arguments]
  rw [same, Apply.expand_toApply single, PassM.joinMap_singleton]
  rfl

end Reduction

namespace SplitCall

open Reduction

variable [TicketSource σ] {call : SplitCall} {depth : Nat} {output : String}
  {pass between : Pass σ} {body : BlockId}

theorem Concrete.reduce_atOnce (concrete : call.Concrete)
    (offered : call.native.prototype.output? call.channel = some output) :
    reduce (depth + 2) [call.atOnce.toTerm] pass =
      reduceNative (reduce (depth + 1)) call.native
        ⟨.native call.native, call.arguments, call.channel⟩ output pass := by
  have task :
      (reduce (depth + 1) call.atOnce.task : PassM σ Compound) = pure call.atOnce.task :=
    reduce_values rfl
  have arguments :
      (PassM.mapEntries (reduce (depth + 1)) call.atOnce.bindings : PassM σ Bindings) =
        pure call.atOnce.bindings :=
    mapEntries_values concrete.normal
  have called : reduceApply (reduce (depth + 1)) call.atOnce pass =
      reduceInvocation (reduce (depth + 1))
        ⟨.native call.native, call.arguments, call.channel⟩ pass :=
    reduceApply_single concrete.single_atOnce (congrFun task pass)
      (congrFun arguments pass) rfl rfl
  rw [reduce, PassM.joinMap_singleton]
  refine called.trans ?_
  simp only [reduceInvocation, Lambda.prototype, offered, Reduction.require, pure_bind]

/-- The curry comes to the lambda over a copy of the body. -/
theorem Concrete.reduce_curry (concrete : call.Concrete)
    (made : bindParams call.native call.curried pass = (.ok (call.remainder body), between)) :
    reduce (depth + 2) [call.curry.toTerm] pass =
      (.ok [.lambda (.native (call.remainder body))], between) := by
  have task :
      (reduce (depth + 1) [.lambda (.native call.native)] : PassM σ Compound) =
        pure [.lambda (.native call.native)] :=
    reduce_values rfl
  have arguments : (PassM.mapEntries (reduce (depth + 1)) call.curried : PassM σ Bindings) =
      pure call.curried :=
    mapEntries_values fun binding among =>
      concrete.normal binding (concrete.mem_arguments (.inl among))
  have closed :
      reduceCurry (reduce (depth + 1)) call.curry pass =
        (.ok [.lambda (.native (call.remainder body))], between) := by
    simp only [reduceCurry, curry, task, arguments, pure_bind, closeCurry, PassM.bind_run,
      made, PassM.pure_run]
  rw [reduce, PassM.joinMap_singleton]
  exact closed

theorem Concrete.reduce_inTwo (concrete : call.Concrete)
    (offered : call.native.prototype.output? call.channel = some output)
    (made : bindParams call.native call.curried pass = (.ok (call.remainder body), between)) :
    reduce (depth + 3) [call.inTwo.toTerm] pass =
      reduceNative (reduce (depth + 2)) (call.remainder body)
        ⟨.native (call.remainder body), call.applied, call.channel⟩ output between := by
  have arguments :
      (PassM.mapEntries (reduce (depth + 2)) call.inTwo.bindings : PassM σ Bindings) =
        pure call.inTwo.bindings :=
    mapEntries_values fun binding among =>
      concrete.normal binding (concrete.mem_arguments (.inr among))
  have called : reduceApply (reduce (depth + 2)) call.inTwo pass =
      reduceInvocation (reduce (depth + 2))
        ⟨.native (call.remainder body), call.applied, call.channel⟩ between :=
    reduceApply_single (concrete.single_inTwo body) (concrete.reduce_curry made)
      (congrFun arguments between) rfl rfl
  have selected : (call.remainder body).prototype.output? call.channel = some output :=
    (Prototype.output?_foldl_erase call.channel).trans offered
  rw [reduce, PassM.joinMap_singleton]
  refine called.trans ?_
  simp only [reduceInvocation, Lambda.prototype, selected, Reduction.require, pure_bind]

end SplitCall

section Scopes

open Reduction

variable {pass : Pass σ} {native : NativeLambda} {bindings : Bindings} {block : Block}

/-- A curry binds its arguments in a copy of the body. -/
theorem Reduction.bindParams_extends (sound : pass.arena.Sound)
    (live : pass.arena.Live native.body block) :
    ∃ body arena, bindParams native bindings pass =
        (.ok ⟨bindings.keys.foldl Prototype.erase native.prototype, body⟩,
          { pass with arena }) ∧
      pass.arena.Extends arena body (block.rebind bindings) := by
  have extends_ := sound.insert block
  obtain ⟨final, bound, whole⟩ := extends_.bindAll bindings
  refine ⟨_, final, ?_, whole⟩
  rw [bindParams_eq, PassM.bind_run,
    PassM.build_bound (Arena.cloneBlock_of_block? live.1) bound]
  rfl

variable {base left between right : Arena} {scope twin body fresh : BlockId}
  {name : String} {found : Option Compound}

/-- In the copy of a block the names that are bound anew are found first, and then
whatever is found in the block. -/
theorem Arena.Extends.lookup_copy
    (extends_ : base.Extends between fresh (block.rebind bindings))
    (distinct : OrderedMap.Distinct bindings) (live : base.Live body block)
    (safe : base.Safe body) : between.lookup fresh name = .ok found ↔
      match bindings.get? name with
      | some here => found = some here
      | none => base.lookup body name = .ok found := by
  have parents : (block.rebind bindings).parent = block.parent := rfl
  rw [Arena.lookup_ok_iff_of_stored extends_.live.1, Arena.lookup_ok_iff_of_stored live.1,
    parents, Block.get?_rebind_of_distinct distinct]
  cases bindings.get? name with
  | some here => rfl
  | none =>
      rw [Option.none_or]
      cases block.get? name with
      | some here => rfl
      | none =>
          cases parent : block.parent with
          | none => rfl
          | some above =>
              exact extends_.preserving.lookup_iff (safe.parent live parent) found

end Scopes

/-- Starting from the same context, every block that can be reached is paired with itself. -/
theorem Context.Keyed.tallies {context : Context} (keyed : context.Keyed) :
    context.arena.Tallies context.Itself context.arena := by
  have mirrors : context.arena.Mirrors nothingWaits context.Made context.Itself
      context.arena := keyed.mirrors
  refine ⟨mirrors.functional, mirrors.injective, fun unmade => absurd trivial unmade,
    fun paired => ?_⟩
  obtain ⟨block, found, here, there, same⟩ := mirrors.blocks paired
  exact ⟨block, found, here, there,
    same.imp (fun _ waiting => ⟨trivial, waiting.2⟩) (le_refl _)⟩

theorem Term.keyed_of_isNormal {term : Term} (normal : term.isNormal = true) :
    term.Keyed := by
  cases term with
  | str value => exact .atom rfl
  | lambda lambda => exact .lambda lambda
  | _ => exact absurd normal Bool.false_ne_true

namespace SplitCall.Concrete

open Reduction

variable {call : SplitCall} {context : Context}

section Fork

variable {left between right : Arena} {scope twin body : BlockId}
  {block : Block} {name : String}

/-- From the scope of the call in two steps the same is found as from the
scope of the call at once. -/
theorem lookup_inTwo (concrete : call.Concrete) {base : Arena}
    (live : base.Live call.native.body block) (safe : base.Safe call.native.body)
    (copied : base.Extends between body (block.rebind call.curried))
    (entered : between.Extends right
      twin (({ parent := some body } : Block).rebind call.applied))
    (safeBody : between.Safe body) (found : Option Compound) :
    right.lookup twin name = .ok found ↔
      match call.arguments.get? name with
      | some here => found = some here
      | none => base.lookup call.native.body name = .ok found := by
  rw [entered.lookup_call concrete.distinct_applied safeBody, concrete.get?_arguments]
  cases call.applied.get? name with
  | some here => rfl
  | none =>
      rw [Option.none_or]
      exact copied.lookup_copy concrete.distinct_curried live safe

/-- From both scopes the same is found: an argument, or what is found in the body. -/
theorem found (concrete : call.Concrete) (keyed : context.Keyed)
    (live : context.arena.Live call.native.body block)
    (safe : context.arena.Safe call.native.body)
    (arguments : context.arena.CoversAll call.arguments)
    (called : context.arena.Extends left
      scope (({ parent := some call.native.body } : Block).rebind call.arguments))
    (copied : context.arena.Extends between body (block.rebind call.curried))
    (safeBody : between.Safe body)
    (entered : between.Extends right
      twin (({ parent := some body } : Block).rebind call.applied)) (name : String) :
    Arena.Found context.Itself (left.lookup scope name) (right.lookup twin name) := by
  have fromScope (found : Option Compound) : left.lookup scope name = .ok found ↔
      match call.arguments.get? name with
      | some here => found = some here
      | none =>
          context.arena.lookup call.native.body name = .ok found :=
            called.lookup_call concrete.distinct safe
  have fromTwin (found : Option Compound) : right.lookup twin name = .ok found ↔
      match call.arguments.get? name with
      | some here => found = some here
      | none => context.arena.lookup call.native.body name = .ok found :=
    concrete.lookup_inTwo live safe copied entered safeBody found
  cases held : call.arguments.get? name with
  | none =>
      -- what is found in the body was there before either call
      simp only [held] at fromScope fromTwin
      exact (keyed.tallies.found ⟨rfl, safe⟩ name).congr fromScope fromTwin
  | some value =>
      simp only [held] at fromScope fromTwin
      have among := OrderedMap.mem_of_get? held
      rw [(fromScope _).mpr rfl, (fromTwin _).mpr rfl]
      refine .ok (.some (Compound.foreshadows_refl fun term inside => ?_))
      have normal := List.all_eq_true.mp (concrete.normal _ among) term inside
      exact Context.alike_itself (Term.keyed_of_isNormal normal)
        (Arena.coversAll_iff.mp arguments term ⟨_, among, inside⟩)

theorem abreast (concrete : call.Concrete) (keyed : context.Keyed)
    (live : context.arena.Live call.native.body block)
    (covers : context.arena.Covers [call.atOnce.toTerm])
    (called : context.arena.Extends left
      scope (({ parent := some call.native.body } : Block).rebind call.arguments))
    (copied : context.arena.Extends between body (block.rebind call.curried))
    (entered : between.Extends right
      twin (({ parent := some body } : Block).rebind call.applied)) :
    left.Abreast ⟨context.arena, scope, twin⟩ context.Itself right := by
  obtain ⟨task, arguments⟩ := Arena.covers_apply.mp covers
  have safe : context.arena.Safe call.native.body := Arena.covers_native.mp task
  have part {bindings : Bindings}
      (among : ∀ binding ∈ bindings, binding ∈ call.arguments) :
      context.arena.CoversAll bindings := by
    refine Arena.coversAll_iff.mpr fun term ⟨binding, inside, here⟩ => ?_
    exact Arena.coversAll_iff.mp arguments term ⟨binding, among _ inside, here⟩
  have curried := part fun binding inside => concrete.mem_arguments (.inl inside)
  have applied := part fun binding inside => concrete.mem_arguments (.inr inside)
  have safeBody : between.Safe body :=
    copied.safe_rebind (fun above => safe.parent live) (safe.coversAll live) curried
  have kept := copied.preserving.trans entered.preserving
  exact
    { sound := called.sound
      soundTwin := entered.sound
      tallies := keyed.tallies.preserved called.preserving kept
      kept := called.preserving
      keptTwin := kept
      made := .inl
      scope := called.safe_rebind (fun above same => Option.some.inj same ▸ safe)
        Arena.coversAll_nil arguments
      twin := entered.safe_rebind (fun above same => Option.some.inj same ▸ safeBody)
        Arena.coversAll_nil (copied.preserving.coversAll applied)
      apart := by
        rintro slot _ ⟨rfl, inUse⟩
        -- both scopes are new, and so neither of them was in use
        obtain ⟨found, here⟩ := inUse.live
        refine ⟨?_, ?_⟩ <;> rintro rfl
        · exact called.unused found here
        · exact entered.unused found (copied.preserving.live here)
      found := concrete.found keyed live safe arguments called copied safeBody entered }

end Fork

variable {sound : σ → Prop} {source : σ}

/-- The passes in which the two calls reduce the output go abreast. -/
theorem forks (concrete : call.Concrete) (known : sound source) (closed : context.Closed)
    (keyed : context.Keyed) (covers : context.arena.Covers [call.atOnce.toTerm])
    (consumer : ConsumerId) (query : QueryId) {start : Pass σ}
    (begins : start = Pass.start consumer query source context.arena context.root) :
    ∃ (fork : Fork) (body : BlockId) (left between right : Pass σ),
      fork.base = context.arena ∧
      callScope call.native call.arguments start = (.ok fork.scope, left) ∧
      bindParams call.native call.curried start = (.ok (call.remainder body), between) ∧
      callScope (call.remainder body) call.applied between = (.ok fork.twin, right) ∧
      left.Abreast fork sound context.Itself right := by
  subst begins
  have safe : context.arena.Safe call.native.body :=
    Arena.covers_native.mp (Arena.covers_apply.mp covers).1
  have root : context.arena.Safe context.root := (Context.intact_iff.mp closed.intact).1
  obtain ⟨block, live⟩ := safe.live
  -- at once there is the scope of the call; in two steps there are the copy
  -- and the scope below it
  obtain ⟨scope, left, atOnce, called⟩ := @callScope_extends σ call.native call.arguments
    (Pass.start consumer query source context.arena context.root) block closed.free live
  obtain ⟨body, between, made, copied⟩ :=
    @bindParams_extends σ (Pass.start consumer query source context.arena context.root)
      call.native call.curried block closed.free live
  obtain ⟨twin, right, inTwo, entered⟩ :=
    @callScope_extends σ (call.remainder body) call.applied
      { Pass.start consumer query source context.arena context.root with
        arena := between } _ copied.sound copied.live
  refine ⟨⟨context.arena, scope, twin⟩, body, _, _, _, rfl, atOnce, made, inTwo, ?_⟩
  exact
    { root := .inl ⟨rfl, root⟩
      scopes := .nil
      resolving := .nil
      consumer := rfl
      query := rfl
      source := rfl
      known := known
      arena := concrete.abreast keyed live covers called copied entered }

variable [TicketSource σ]

/-- At one depth, which leaves room for the curry, the two calls come to the same. -/
theorem sameOutcome (concrete : call.Concrete) (strict : TicketSource.Strict sound)
    (known : sound source) (closed : context.Closed) (keyed : context.Keyed)
    (covers : context.arena.Covers [call.atOnce.toTerm]) (consumer : ConsumerId)
    (query : QueryId) (depth : Nat) :
    SameOutcome context.arena
      (reduce (depth + 3) [call.atOnce.toTerm]
        (Pass.start consumer query source context.arena context.root))
      (reduce (depth + 3) [call.inTwo.toTerm]
        (Pass.start consumer query source context.arena context.root)) := by
  obtain ⟨output, offered⟩ := concrete.offered
  obtain ⟨fork, body, left, between, right, base, atOnce, made, inTwo, abreast⟩ :=
    concrete.forks known closed keyed covers consumer query rfl
  have lockstep : Lockstep fork sound (reduce (depth + 2) : Compound → PassM σ Compound) :=
    lockstep_reduce strict fork (depth + 2)
  rw [concrete.reduce_atOnce offered, concrete.reduce_inTwo offered made, reduceNative_eq,
    reduceNative_eq, PassM.bind_run, PassM.bind_run, atOnce, inTwo, ← base]
  exact (lockstep.inCall abreast (.inr ⟨rfl, rfl⟩) _ _ output).sameOutcome

/-- Currying a part of the arguments, then applying the curry to the others, is applying.
Let no block id dangle, and let the source hold to the contract of a backend.  Whatever
depth they take, the one call terminates exactly if the other one does.  Then both fail,
or both come to the same result up to the numbers of blocks that were not in use before,
and the same requests have been granted in the same order. -/
theorem curry_then_apply (concrete : call.Concrete) (strict : TicketSource.Strict sound)
    (known : sound source) (closed : context.Closed) (keyed : context.Keyed)
    (covers : context.arena.Covers [call.atOnce.toTerm]) (consumer : ConsumerId)
    (query : QueryId) :
    ((∃ depth, (reduce depth [call.atOnce.toTerm]).Ends
      (context.outset consumer query source)) ↔ ∃ depth,
      (reduce depth [call.inTwo.toTerm]).Ends (context.outset consumer query source)) ∧
      ∀ {first second : Nat},
        (reduce first [call.atOnce.toTerm]).Ends (context.outset consumer query source) →
        (reduce second [call.inTwo.toTerm]).Ends (context.outset consumer query source) →
        SameOutcome context.arena
          (reduce first [call.atOnce.toTerm] (context.outset consumer query source))
          (reduce second [call.inTwo.toTerm] (context.outset consumer query source)) := by
  have same (depth : Nat) : SameOutcome context.arena
      (reduce (depth + 3) [call.atOnce.toTerm] (context.outset consumer query source))
      (reduce (depth + 3) [call.inTwo.toTerm] (context.outset consumer query source)) :=
    concrete.sameOutcome strict.journal known closed keyed covers consumer query depth
  have ends_iff (depth : Nat) : (reduce (depth + 3) [call.atOnce.toTerm]).Ends
      (context.outset consumer query source) ↔
      (reduce (depth + 3) [call.inTwo.toTerm]).Ends (context.outset consumer query source) :=
    not_congr (same depth).exhausted_iff
  have deeper {depth further : Nat} {terms : Compound} (within : depth ≤ further)
      (ends : (reduce depth terms).Ends (context.outset consumer query source)) :
      reduce further terms (context.outset consumer query source) =
        reduce depth terms (context.outset consumer query source) :=
    outlasts_reduce within terms _ ends
  have still {depth : Nat} {terms : Compound}
      (ends : (reduce depth terms).Ends (context.outset consumer query source)) :
      (reduce (depth + 3) terms).Ends (context.outset consumer query source) := by
    rw [PassM.Ends, deeper (Nat.le_add_right depth 3) ends]
    exact ends
  -- depth beyond the end changes nothing, so either call may be taken to the depth at
  -- which they are compared
  refine ⟨⟨?_, ?_⟩, fun {first second} ends endsTwin => ?_⟩
  · rintro ⟨depth, ends⟩
    exact ⟨depth + 3, (ends_iff depth).mp (still ends)⟩
  · rintro ⟨depth, ends⟩
    exact ⟨depth + 3, (ends_iff depth).mpr (still ends)⟩
  · have whole := same (max first second)
    rwa [deeper ((Nat.le_max_left first second).trans (Nat.le_add_right _ 3)) ends,
      deeper ((Nat.le_max_right first second).trans (Nat.le_add_right _ 3)) endsTwin] at whole

end SplitCall.Concrete

namespace SplitCall

open Reduction

/-- A call with an argument that is iterated over, which is curried, and one that is not. -/
def halved : SplitCall where
  native := ⟨{ params := [.plain "x", .aggregate "a"], outputs := ["y"] }, ⟨1⟩⟩
  channel := 1
  arguments := [("x", [.str "u"]), ("a", [.str "v", .str "w"])]
  curried := [("x", [.str "u"])]
  applied := [("a", [.str "v", .str "w"])]

/-- Asks a backend for something about `x`. -/
def asking : Term :=
  .apply [.lambda (.foreign ⟨"f", { params := [.plain "p"], outputs := ["o"] }, "l", "s"⟩)]
    [("p", [.name "x"])] 1 false

/-- The body has its own `x`, which the argument hides, but not from the branches. -/
def halvedContext : Context where
  arena := {
    blocks := #[{},
      { parent := some ⟨0⟩
        bindings := [("x", [.str "own"]),
          ("y", [.name "a", .cond [asking] { params := [], outputs := ["y"] } 1 ⟨2⟩ ⟨3⟩])] },
      { parent := some ⟨1⟩, bindings := [("y", [.name "x"])] },
      { parent := some ⟨1⟩, bindings := [("y", [])] }] }
  root := ⟨0⟩
  targets := [[halved.atOnce.toTerm]]

/-- What is left of the call, with the copies of the branches. -/
def halvedLeft (thenBlock elseBlock : BlockId) : Compound :=
  [.str "v", .str "w",
    .cond [.ticket ⟨⟨List.replicate 32 0, Digest.length_zeros⟩, 1, "o"⟩]
      { params := [], outputs := ["y"] } 1 thenBlock elseBlock]

theorem halved_concrete : halved.Concrete where
  offered := ⟨"y", rfl⟩
  distinct := by simp [halved, OrderedMap.Distinct, OrderedMap.keys]
  normal := by decide
  aggregates := by decide
  iterated := by simp [halved, Prototype.iterated, Param.isPlain, Param.name, OrderedMap.get?]
  split := .refl _

/-- The curry makes one block more, so the copies of the branches have other numbers. -/
theorem curry_then_apply_halved :
    (reduce 6 [halved.atOnce.toTerm] (halvedContext.outset ⟨1⟩ ⟨1⟩ (Store.shared none))).1 =
      .ok (halvedLeft ⟨5⟩ ⟨6⟩) ∧
      (reduce 7 [halved.inTwo.toTerm] (halvedContext.outset ⟨1⟩ ⟨1⟩ (Store.shared none))).1 =
        .ok (halvedLeft ⟨6⟩ ⟨7⟩) ∧ SameOutcome halvedContext.arena
        (reduce 6 [halved.atOnce.toTerm] (halvedContext.outset ⟨1⟩ ⟨1⟩ (Store.shared none)))
        (reduce 7 [halved.inTwo.toTerm]
          (halvedContext.outset ⟨1⟩ ⟨1⟩ (Store.shared none))) := by
  have closed : halvedContext.Closed :=
    Context.closed_of_whole rfl (by decide) (by decide) (by decide)
  have keyed : halvedContext.Keyed := by
    refine Context.keyed_of_stored ?_ ?_
    · have call : halved.atOnce.toTerm.Keyed :=
        .apply halved_concrete.distinct (by simpa [halved, atOnce] using .lambda _)
          fun binding among term inside => Term.keyed_of_isNormal
            (List.all_eq_true.mp (halved_concrete.normal binding among) term inside)
      simpa [halvedContext] using call
    · have asks : asking.Keyed :=
        .apply (List.nodup_singleton _) (by simpa using .lambda _) (by simpa using .atom rfl)
      have chooses (branch other : BlockId) :
          Term.Keyed (.cond [asking] { params := [], outputs := ["y"] } 1 branch other) :=
          .cond (by simpa using asks)
      have text (value : String) : Term.Keyed (.str value) := .atom rfl
      have name (value : String) : Term.Keyed (.name value) := .atom rfl
      simp [halvedContext, BoundIn, text, name, chooses, or_imp, forall_and]
  have covers : halvedContext.arena.Covers [halved.atOnce.toTerm] :=
    (Context.intact_iff.mp closed.intact).2 _ List.mem_cons_self
  have ended {outcome : Except Halt Compound} {result : Compound}
      (same : outcome.toOption = some result) : outcome = .ok result := by
    cases outcome with
    | ok found => exact congrArg Except.ok (Option.some.inj same)
    | error reason => cases same
  have atOnce :
      (reduce 6 [halved.atOnce.toTerm] (halvedContext.outset ⟨1⟩ ⟨1⟩ (Store.shared none))).1 =
        .ok (halvedLeft ⟨5⟩ ⟨6⟩) :=
    ended (by decide +kernel)
  have inTwo :
      (reduce 7 [halved.inTwo.toTerm] (halvedContext.outset ⟨1⟩ ⟨1⟩ (Store.shared none))).1 =
        .ok (halvedLeft ⟨6⟩ ⟨7⟩) :=
    ended (by decide +kernel)
  refine ⟨atOnce, inTwo,
    (halved_concrete.curry_then_apply Store.strict trivial closed keyed covers ⟨1⟩ ⟨1⟩).2
      ?_ ?_⟩
  · rw [PassM.Ends, atOnce]
    rintro ⟨⟩
  · rw [PassM.Ends, inTwo]
    rintro ⟨⟩

end SplitCall

end TicketFlow
