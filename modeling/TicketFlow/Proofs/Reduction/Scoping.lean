import TicketFlow.Proofs.Arena.Search
import TicketFlow.Proofs.Evaluation.Store
import TicketFlow.Proofs.Reduction.Action
import TicketFlow.Proofs.Reduction.Expansion
import TicketFlow.Proofs.Reduction.Frame

namespace TicketFlow

/-! Where names are looked up during a call.

A call of a native lambda makes a block for its arguments below the body, and
reduces the selected output there.  So a condition in the body sees the
arguments.  A branch is reduced in its own block: what it names is looked up
there and in the parents of the branch, to which the arguments do not belong.
-/

namespace Block

/-- In a new block every name is bound to its argument. -/
theorem get?_rebind_of_distinct {block : Block} {bindings : Bindings} {name : String}
    (distinct : OrderedMap.Distinct bindings) :
    (block.rebind bindings).get? name = (bindings.get? name).or (block.get? name) := by
  induction bindings generalizing block with
  | nil => rfl
  | cons binding rest ih =>
      obtain ⟨bound, value⟩ := binding
      obtain ⟨fresh, restDistinct⟩ := List.nodup_cons.mp distinct
      rw [rebind_cons, ih restDistinct, Block.get?, OrderedMap.get?_insert]
      by_cases same : bound = name
      · have absent : OrderedMap.get? rest name = none := by
          by_contra present
          obtain ⟨other, found⟩ := Option.ne_none_iff_exists'.mp present
          exact fresh (List.mem_map.mpr ⟨_, OrderedMap.mem_of_get? found, same.symm⟩)
        simp [OrderedMap.get?, same, absent]
      · simp [OrderedMap.get?, same, Block.get?]

end Block

section Calls

variable {σ : Type} [TicketSource σ] {apply : Apply} {native : NativeLambda}
  {arguments : Bindings} {depth : Nat} {pass told before : Pass σ} {output : String}

/-- The application comes to one call of the lambda: its task is reduced to
the lambda, and the arguments for the parameters, all of them plain, are
reduced to one string each. -/
structure Apply.Calls (apply : Apply) (depth : Nat) (native : NativeLambda)
    (arguments : Bindings) (pass before : Pass σ) : Prop where
  reduced :
    ∃ told, Reduction.reduce depth apply.task pass = (.ok [.lambda (.native native)], told) ∧
    PassM.mapEntries (Reduction.reduce depth) apply.bindings told = (.ok arguments, before)
  plain : ∀ param ∈ native.prototype.params, param.isPlain = true
  single :
    ∀ param ∈ native.prototype.params, ∃ text, arguments.get? param.name = some [.str text]
  restless : native.prototype.rest = none
  distinct : OrderedMap.Distinct arguments

/-- The scope of a call: a block for the arguments, below the body. -/
def Reduction.callScope (native : NativeLambda) (arguments : Bindings) :
    PassM σ BlockId := do
  let scope ← PassM.build fun arena => arena.alloc (some native.body)
  PassM.build fun arena => (arena.bindAll scope arguments).map ((), ·)
  pure scope

omit [TicketSource σ] in
/-- A call puts its arguments into a new block below the body. -/
theorem Reduction.callScope_extends {block : Block}
    (sound : before.arena.Sound) (live : before.arena.Live native.body block) :
    ∃ scope arena, callScope native arguments before = (.ok scope, { before with arena }) ∧
      before.arena.Extends arena scope
        (({ parent := some native.body } : Block).rebind arguments) := by
  have extends_ := sound.insert { parent := some native.body }
  obtain ⟨final, bound, whole⟩ := extends_.bindAll arguments
  exact ⟨_, final, PassM.build_bound (Arena.alloc_of_block? live.1) bound, whole⟩

/-- In the scope of a call the arguments are found first, and then whatever
is found in the body. -/
theorem Arena.Extends.lookup_call {base after : Arena}
    {scope body : BlockId} {name : String} {found : Option Compound}
    (extends_ : base.Extends after scope (({ parent := some body } : Block).rebind arguments))
    (distinct : OrderedMap.Distinct arguments) (safe : base.Safe body) :
    after.lookup scope name = .ok found ↔
      match arguments.get? name with
      | some here => found = some here
      | none => base.lookup body name = .ok found := by
  have held : (({ parent := some body } : Block).rebind arguments).get? name =
      arguments.get? name := by
    rw [Block.get?_rebind_of_distinct distinct]
    exact Option.or_none
  rw [Arena.lookup_ok_iff_of_stored extends_.live.1, held]
  cases arguments.get? name with
  | some here => rfl
  | none => exact extends_.preserving.lookup_iff safe found

omit [TicketSource σ] in
/-- A call in a safe body makes a scope in which its arguments are found, and what
is found in the body. -/
theorem Reduction.callScope_run (sound : before.arena.Sound)
    (safe : before.arena.Safe native.body) (distinct : OrderedMap.Distinct arguments) :
    ∃ scope arena, callScope native arguments before = (.ok scope, { before with arena }) ∧
      before.arena.Preserves arena ∧
      (∀ {name value}, arguments.get? name = some value →
        arena.lookup scope name = .ok (some value)) ∧ ∀ {name found},
        arguments.get? name = none → before.arena.lookup native.body name = .ok found →
        arena.lookup scope name = .ok found := by
  obtain ⟨body, live⟩ := safe.live
  obtain ⟨scope, final, ran, whole⟩ :=
    @Reduction.callScope_extends σ native arguments before body sound live
  refine ⟨scope, final, ran, whole.preserving, fun {name value} given => ?_,
    fun {name found} free below => ?_⟩
  · rw [whole.lookup_call distinct safe, given]
  · rw [whole.lookup_call distinct safe, free]
    exact below

omit [TicketSource σ] in
/-- A call is reduced inside its scope. -/
theorem Reduction.reduceNative_eq (recurse : Compound → PassM σ Compound)
    (native : NativeLambda) (invocation : Invocation) (output : String) :
    reduceNative recurse native invocation output =
      callScope native invocation.bindings >>= fun scope => PassM.inScope scope
        (PassM.inspect (fun arena => arena.lookup scope output) >>= fun bound =>
          require (.notBound invocation.toApply.toTerm output) bound >>= recurse) := by
  simp only [reduceNative, callScope, bind_assoc, pure_bind]

omit [TicketSource σ] in
/-- A task without a rest parameter leaves nothing to wait for. -/
theorem Apply.captureRest_of_restless {lambda : Lambda}
    (task : apply.task = [.lambda lambda]) (restless : lambda.prototype.rest = none) :
    apply.captureRest = { apply with rest := false } := by
  have complete : apply.captureRest? = some { apply with rest := false } :=
    captureRest?_eq_some_iff.mpr ⟨lambda, task, .inl ⟨restless, rfl⟩⟩
  rw [captureRest_eq]
  split
  · rw [complete]
    rfl
  next whole =>
    simp only [Bool.not_eq_true] at whole
    rw [← whole]

theorem Apply.Calls.single_invocation
    (calls : apply.Calls depth native arguments pass before) :
    Invocation.Single ⟨.native native, arguments, apply.channel⟩ := by
  refine ⟨fun param aggregate => ?_, fun param iterated => ?_⟩
  · obtain ⟨declared, among, rfl⟩ := List.mem_map.mp aggregate
    have whole := (List.mem_filter.mp among).2
    simp [calls.plain declared (List.mem_of_mem_filter among)] at whole
  · obtain ⟨declared, among, rfl⟩ := List.mem_map.mp iterated
    obtain ⟨text, found⟩ := calls.single declared (List.mem_of_mem_filter among)
    refine ⟨.str text, rfl, found, fun entry inside same => ?_⟩
    have here : OrderedMap.get? arguments entry.1 = some entry.2 :=
      (OrderedMap.mem_iff_get? calls.distinct).mp inside
    rw [same, found] at here
    exact (Option.some.inj here).symm

theorem Apply.Calls.expand (calls : apply.Calls depth native arguments pass before) :
    ({ apply with task := [.lambda (.native native)], bindings := arguments } : Apply).expand =
      [.invoke ⟨.native native, arguments, apply.channel⟩] := by
  have once := expand_toApply calls.single_invocation
  have whole : (⟨.native native, arguments, apply.channel⟩ : Invocation).toApply.task =
      [.lambda (.native native)] := rfl
  rw [expand_lambda whole, captureRest_of_whole rfl] at once
  have restless : (Lambda.native native).prototype.rest = none := calls.restless
  rw [expand_lambda rfl, captureRest_of_restless rfl restless]
  exact once

/-- A call comes to what the selected output is bound to, reduced in the scope of the call. -/
theorem Apply.Calls.reduce (calls : apply.Calls depth native arguments pass before)
    (offered : native.prototype.output? apply.channel = some output)
    {scope : BlockId} {arena : Arena} {value : Compound}
    (entered : Reduction.callScope native arguments before =
      (.ok scope, { before with arena }))
    (found : arena.lookup scope output = .ok (some value)) :
    (Reduction.reduce (depth + 1) [apply.toTerm] pass).1 =
      (Reduction.reduce depth value (PassM.enter scope { before with arena })).1 := by
  obtain ⟨told, task, bindings⟩ := calls.reduced
  have looked : (PassM.inspect fun arena => arena.lookup scope output)
      (PassM.enter scope { before with arena }) =
      (.ok (some value), PassM.enter scope { before with arena }) := by
    simp only [PassM.inspect, PassM.enter, found]
  have invoked : (Reduction.reduceInvocation (Reduction.reduce depth)
      ⟨.native native, arguments, apply.channel⟩ before).1 =
      (Reduction.reduce depth value (PassM.enter scope { before with arena })).1 := by
    simp only [Reduction.reduceInvocation, Lambda.prototype, offered, Reduction.require,
      pure_bind, Reduction.reduceNative_eq, PassM.bind_run, entered, PassM.inScope,
      looked, PassM.pure_run]
  rw [Reduction.reduce, PassM.joinMap_singleton]
  show (Reduction.reduceApply (Reduction.reduce depth) apply pass).1 = _
  simp only [Reduction.reduceApply, PassM.bind_run, task, bindings]
  rw [calls.expand, PassM.joinMap_singleton]
  exact invoked

/-- Once the condition is known, a conditional comes to an output of the chosen branch,
reduced in the block of that branch. -/
theorem Reduction.reduce_decided {cond : Cond} {selected : String}
    {condition value : Compound} {decided : Pass σ} {branch : BlockId}
    {block : Block} (selects : cond.prototype.output? cond.channel = some selected)
    (known : reduce depth cond.condition pass = (.ok condition, decided))
    (chosen : decide? cond condition = some branch)
    (stored : decided.arena.block? branch = some block)
    (bound : block.get? selected = some value) :
    (reduce (depth + 1) [cond.toTerm] pass).1 =
      (reduce depth value (PassM.enter branch decided)).1 := by
  have read : decided.arena.getLocal branch selected = .ok (some value) := by
    rw [Arena.getLocal, Arena.get_ok stored, ← bound]
    rfl
  rw [reduce, PassM.joinMap_singleton]
  show (reduceCond (reduce depth) cond pass).1 = _
  simp only [reduceCond, PassM.bind_run, known, selects, require, PassM.pure_run, chosen,
    reduceOutput, PassM.inspect, read, PassM.inScope]

/-- A name that is bound nowhere on the way up from the scope stays as it is. -/
theorem Reduction.reduce_unbound {name : String} {scope : BlockId}
    (unbound : pass.arena.lookup scope name = .ok none) :
    (reduce (depth + 1) [.name name] (PassM.enter scope pass)).1 = .ok [.name name] := by
  rw [reduce, PassM.joinMap_singleton]
  show (reduceName (reduce depth) name (PassM.enter scope pass)).1 = _
  simp only [reduceName, PassM.bind_run, PassM.view, PassM.inspect, Pass.scope,
    PassM.enter, List.head?_cons, Option.getD_some, unbound, PassM.pure_run]

/-- In a call of a native lambda whose selected output is a conditional, the condition is
reduced among the arguments.  The output of the chosen branch is reduced in the block of
the branch, from where a search finds what it found before the call; an output that is a
name bound nowhere on that way stays this name, be it a parameter.  An argument under the
name of the selected output is found in its stead. -/
theorem Apply.Calls.branch_scope {cond : Cond} {body : Block} {selected : String}
    (calls : apply.Calls (depth + 1) native arguments pass before)
    (sound : before.arena.Sound) (safe : before.arena.Safe native.body)
    (offered : native.prototype.output? apply.channel = some output)
    (stored : before.arena.block? native.body = some body)
    (bound : body.get? output = some [cond.toTerm])
    (selects : cond.prototype.output? cond.channel = some selected) :
    ∃ scope arena,
      Reduction.callScope native arguments before = (.ok scope, { before with arena }) ∧
      (∀ {name value}, arguments.get? name = some value → arena.lookup scope name =
        .ok (some value)) ∧ (∀ {value}, arguments.get? output = some value →
        (Reduction.reduce (depth + 2) [apply.toTerm] pass).1 =
          (Reduction.reduce (depth + 1) value (PassM.enter scope { before with arena })).1) ∧
      (arguments.get? output = none → ∀ {condition decided branch},
        Reduction.reduce depth cond.condition (PassM.enter scope { before with arena }) =
          (.ok condition, decided) → Reduction.decide? cond condition = some branch →
        ∃ block, before.arena.Live branch block ∧
          (∀ {name found}, before.arena.lookup branch name = .ok found →
            decided.arena.lookup branch name = .ok found) ∧
          (∀ {value}, block.get? selected = some value →
            (Reduction.reduce (depth + 2) [apply.toTerm] pass).1 =
              (Reduction.reduce depth value (PassM.enter branch decided)).1) ∧
          ∀ {name}, block.get? selected = some [.name name] →
            before.arena.lookup branch name = .ok none →
            (Reduction.reduce (depth + 2) [apply.toTerm] pass).1 = .ok [.name name]) := by
  obtain ⟨scope, arena, entered, preserves, among, beyond⟩ :=
    Reduction.callScope_run sound safe calls.distinct
  refine ⟨scope, arena, entered, among,
    fun given => calls.reduce offered entered (among given),
    fun free condition decided branch known chosen => ?_⟩
  have found : arena.lookup scope output = .ok (some [cond.toTerm]) :=
    beyond free (Arena.lookup_ok_iff.mpr ⟨_, .here stored bound⟩)
  have whole := calls.reduce offered entered found
  obtain ⟨found, live⟩ := safe.live
  obtain rfl := Option.some.inj (live.1.symm.trans stored)
  obtain ⟨_, thenSafe, elseSafe⟩ := Arena.covers_cond.mp (safe.covers live bound)
  have branchSafe : before.arena.Safe branch := by
    unfold Reduction.decide? at chosen
    split at chosen
    · exact Option.some.inj chosen ▸ elseSafe
    · split at chosen
      · exact Option.some.inj chosen ▸ thenSafe
      · simp at chosen
  obtain ⟨block, branchLive⟩ := branchSafe.live
  have framed :=
    Pass.conservation_framed.reduce depth cond.condition
      (PassM.enter scope { before with arena })
  rw [known] at framed
  have kept : before.arena.Preserves decided.arena := preserves.trans framed.arena
  have result {value : Compound} (holds : block.get? selected = some value) :
      (Reduction.reduce (depth + 2) [apply.toTerm] pass).1 =
        (Reduction.reduce depth value (PassM.enter branch decided)).1 :=
    whole.trans
      (Reduction.reduce_decided selects known chosen (kept.live branchLive).1 holds)
  refine ⟨block, branchLive, fun read => kept.lookup branchSafe read, result,
    fun holds unbound => ?_⟩
  cases depth with
  | zero => simp [Reduction.reduce, PassM.halt] at known
  | succ depth =>
      rw [result holds]
      exact Reduction.reduce_unbound (kept.lookup branchSafe unbound)

end Calls

/-- A call of a lambda whose output is its parameter if there is any. -/
def branchingCall : Apply where
  task := [.lambda (.native ⟨{ params := [.plain "x"], outputs := ["y"] }, ⟨1⟩⟩)]
  bindings := [("x", [.str "a"])]
  channel := 1

/-- The lambda is written as a conditional with its branches inside the body. -/
def Context.branching : Context where
  arena := {
    blocks := #[{},
      { parent := some ⟨0⟩
        bindings :=
          [("y", [.cond [.name "x"] { params := [], outputs := ["y"] } 1 ⟨2⟩ ⟨3⟩])] },
      { parent := some ⟨1⟩, bindings := [("y", [.name "x"])] },
      { parent := some ⟨1⟩, bindings := [("y", [.str "none"])] }] }
  root := ⟨0⟩
  targets := [[branchingCall.toTerm]]

/-- The branches lie in the body and the argument decides the condition, and yet the name
of the parameter is left. -/
theorem Context.reduce_branching :
    branching.Closed ∧
      (∀ branch ∈ [⟨2⟩, ⟨3⟩], (branching.arena.block? branch).bind Block.parent = some ⟨1⟩) ∧
      (branching.reduce 5 (Store.shared none) ⟨1⟩ ⟨1⟩).outcome = .ok [.name "x"] :=
  ⟨closed_of_whole rfl (by decide) (by decide) (by decide), by decide, rfl⟩

theorem Apply.branch_scope_branching :
    (Reduction.reduce 5 [branchingCall.toTerm]
      (Pass.start ⟨1⟩ ⟨1⟩ (Store.shared none) Context.branching.arena ⟨0⟩)).1 =
      .ok [.name "x"] := by
  have closed : Context.branching.Closed :=
    Context.closed_of_whole rfl (by decide) (by decide) (by decide)
  have calls : branchingCall.Calls 4
      ⟨{ params := [.plain "x"], outputs := ["y"] }, ⟨1⟩⟩ branchingCall.bindings
      (Pass.start ⟨1⟩ ⟨1⟩ (Store.shared none) Context.branching.arena ⟨0⟩)
      (Pass.start ⟨1⟩ ⟨1⟩ (Store.shared none) Context.branching.arena ⟨0⟩) :=
    { reduced := ⟨_, rfl, rfl⟩
      plain := by simp [Param.isPlain]
      single := by simp [Param.name, branchingCall, OrderedMap.get?]
      restless := rfl
      distinct := List.nodup_singleton _ }
  have safe : Context.branching.arena.Safe ⟨1⟩ := by
    have covers :=
      (Context.intact_iff.mp closed.intact).2 [branchingCall.toTerm] List.mem_cons_self
    exact covers ⟨1⟩ List.mem_cons_self
  have selects : (⟨[.name "x"], { params := [], outputs := ["y"] }, 1, ⟨2⟩,
      ⟨3⟩⟩ : Cond).prototype.output? 1 = some "y" := rfl
  obtain ⟨scope, arena, entered, _, _, decides⟩ :=
    calls.branch_scope closed.free safe rfl rfl rfl selects
  obtain rfl : _ = arena := congrArg (fun run => run.2.arena) entered
  obtain rfl : (⟨4⟩ : BlockId) = scope := Except.ok.inj (congrArg Prod.fst entered)
  obtain ⟨block, live, _, _, stays⟩ := decides rfl (by rfl) (by rfl)
  obtain rfl := Option.some.inj live.1
  exact stays rfl rfl

end TicketFlow
