import TicketFlow.Proofs.Arena.Agreement
import TicketFlow.Proofs.Reduction.Closure
import TicketFlow.Proofs.Reduction.Sources

namespace TicketFlow

/-! Reduction reads nothing but what it can reach.

From a pass whose root and scopes are safe every action leads to such a pass,
and what it gives names safe blocks only.  So no slot beyond the arena is
accessed.  What stands in released slots makes no difference to the outcome, nor
to the blocks that are in use afterwards: none of it is read.
-/

variable {σ : Type}

/-- Making blocks does not take it away. -/
structure Arena.Lasting (holds : Arena → Prop) : Prop where
  kept : ∀ {before after : Arena}, before.Preserves after → holds before → holds after

/-- The released slots of the pass are slots, and its root and its scopes are safe. -/
structure Pass.Enclosed (sound : σ → Prop) (pass : Pass σ) : Prop where
  sound : sound pass.source
  free : pass.arena.Sound
  root : pass.arena.Safe pass.root
  scopes : ∀ scope ∈ pass.scopes, pass.arena.Safe scope

/-- From the pass the action comes to this result and this enclosed pass, and to the same
whatever is in the released slots. -/
structure PassM.Confines {α : Type} (sound : σ → Prop) (good : Arena → α → Prop)
    (action : PassM σ α) (pass : Pass σ) (result : Except Halt α)
    (after : Pass σ) : Prop where
  ran : action pass = (result, after)
  enclosed : after.Enclosed sound
  preserves : pass.arena.Preserves after.arena
  good : ∀ value, result = .ok value → good after.arena value
  inherent : ∀ reason, result = .error reason → reason.IsInherent
  blind : ∀ arena, pass.arena.Agrees arena → ∃ twin, after.arena.Agrees twin ∧
    action { pass with arena } = (result, { after with arena := twin })

def PassM.Confined {α : Type} (sound : σ → Prop) (holds : Arena → Prop)
    (good : Arena → α → Prop) (action : PassM σ α) : Prop :=
  ∀ pass : Pass σ, pass.Enclosed sound → holds pass.arena →
    ∃ result after, action.Confines sound good pass result after

section Rules

variable {α β : Type} {sound : σ → Prop} {holds more : Arena → Prop}
  {good : Arena → α → Prop} {better : Arena → β → Prop} {action : PassM σ α}

theorem Arena.Lasting.and (left : Arena.Lasting holds) (right : Arena.Lasting more) :
    Arena.Lasting fun arena => holds arena ∧ more arena :=
  ⟨fun preserves given => ⟨left.kept preserves given.1, right.kept preserves given.2⟩⟩

theorem Arena.lasting_safe (slot : BlockId) :
    Arena.Lasting fun arena => arena.Safe slot :=
  ⟨Arena.Preserves.safe⟩

theorem Arena.lasting_covers (terms : Compound) :
    Arena.Lasting fun arena => arena.Covers terms :=
  ⟨Arena.Preserves.covers⟩

theorem Arena.lasting_coversAll (bindings : Bindings) :
    Arena.Lasting fun arena => arena.CoversAll bindings :=
  ⟨Arena.Preserves.coversAll⟩

namespace PassM

/-- An action that only looks, and looks at nothing released. -/
theorem confined_still {f : Pass σ → Except Halt α}
    (looks : ∀ pass, action pass = (f pass, pass))
    (blind : ∀ pass arena, holds pass.arena →
      pass.arena.Agrees arena → f { pass with arena } = f pass)
    (fine : ∀ pass value, pass.Enclosed sound → holds pass.arena →
      f pass = .ok value → good pass.arena value)
    (inherent : ∀ pass reason, holds pass.arena → f pass = .error reason → reason.IsInherent) :
    Confined sound holds good action := by
  refine fun pass enclosed given => ⟨f pass, pass, looks pass, enclosed, .refl _,
    fun value => fine pass value enclosed given, fun reason => inherent pass reason given,
    fun arena agrees => ⟨arena, agrees, ?_⟩⟩
  rw [looks, blind pass arena given agrees]

theorem confined_pure {value : α} (fine : ∀ arena, holds arena → good arena value) :
    Confined sound holds good (pure value : PassM σ α) := by
  refine confined_still (fun _ => rfl) (fun _ _ _ _ => rfl)
    (fun pass result _ given same => ?_) fun _ _ _ same => nomatch same
  exact Except.ok.inj same ▸ fine _ given

theorem confined_halt {reason : Halt} (inherent : reason.IsInherent) :
    Confined sound holds good (halt reason : PassM σ α) :=
  confined_still (fun _ => rfl) (fun _ _ _ _ => rfl) (fun _ _ _ _ same => nomatch same)
    fun _ _ _ same => Except.error.inj same ▸ inherent

theorem confined_reject {error : ReduceError} :
    Confined sound holds good (reject error : PassM σ α) :=
  confined_halt fun _ same => nomatch same

theorem confined_view {f : Pass σ → α}
    (blind : ∀ (pass : Pass σ) (arena : Arena), f { pass with arena } = f pass)
    (fine : ∀ pass, pass.Enclosed sound → holds pass.arena → good pass.arena (f pass)) :
    Confined sound holds good (view f) :=
  confined_still (fun _ => rfl)
    (fun pass arena _ _ => congrArg Except.ok (blind pass arena))
    (fun pass _ enclosed given same => Except.ok.inj same ▸ fine pass enclosed given)
    fun _ _ _ same => nomatch same

theorem confined_ask {call : σ → α × σ} {answers : α → Prop}
    (still : ∀ source, sound source → sound (call source).2)
    (fine : ∀ source, sound source → answers (call source).1) :
    Confined sound (fun _ => True) (fun _ => answers) (ask call) :=
  fun pass enclosed _ =>
    ⟨_, _, rfl, { enclosed with sound := still pass.source enclosed.sound },
      .refl _, fun _ same => Except.ok.inj same ▸ fine pass.source enclosed.sound,
      fun _ same => (nomatch same), fun arena agrees => ⟨arena, agrees, rfl⟩⟩

theorem confined_inspect {f : Arena → Except Arena.Fault α}
    (blind : ∀ left right, holds left → left.Agrees right → f right = f left)
    (fine : ∀ arena value, holds arena → f arena = .ok value → good arena value)
    (faults : ∀ arena fault, holds arena → f arena = .error fault →
      ∃ block, fault = .endlessChain block) :
    Confined sound holds good (inspect f : PassM σ α) := by
  have looks
      (pass : Pass σ) : inspect f pass = ((f pass.arena).mapError .fault, pass) := by
    unfold inspect
    cases f pass.arena <;> rfl
  refine confined_still looks (fun pass arena given agrees => by rw [blind _ _ given agrees])
    (fun pass value _ given same => ?_) fun pass reason given same => ?_
  · cases read : f pass.arena with
    | ok found => exact Except.ok.inj (read ▸ same) ▸ fine _ _ given read
    | error fault => simp [read, Except.mapError] at same
  · cases read : f pass.arena with
    | ok found => simp [read, Except.mapError] at same
    | error fault =>
        obtain rfl : Halt.fault fault = reason := by simpa [read, Except.mapError] using same
        exact fun other is => Halt.fault.inj is ▸ faults _ _ given read

theorem Confined.bind {next : α → PassM σ β} (lasting : Arena.Lasting holds)
    (first : Confined sound holds good action)
    (second : ∀ value,
      Confined sound (fun arena => holds arena ∧ good arena value) better (next value)) :
    Confined sound holds better (action >>= next) := by
  intro pass enclosed given
  obtain ⟨result, after, ran, still, preserves, fine, inherent, blind⟩ :=
    first pass enclosed given
  cases result with
  | error reason =>
      refine ⟨.error reason, after, by rw [bind_run, ran],
        still, preserves, fun _ same => (nomatch same),
        fun other same => inherent other (congrArg Except.error (Except.error.inj same)),
        fun arena agrees => ?_⟩
      obtain ⟨twin, agreeing, again⟩ := blind arena agrees
      exact ⟨twin, agreeing, by rw [bind_run, again]⟩
  | ok value =>
      obtain ⟨last, final, ended⟩ :=
        second value after still ⟨lasting.kept preserves given, fine value rfl⟩
      refine ⟨last, final, by rw [bind_run, ran]; exact ended.ran, ended.enclosed,
        preserves.trans ended.preserves, ended.good, ended.inherent, fun arena agrees => ?_⟩
      obtain ⟨twin, agreeing, again⟩ := blind arena agrees
      obtain ⟨other, agreed, continued⟩ := ended.blind twin agreeing
      exact ⟨other, agreed, by rw [bind_run, again]; exact continued⟩

theorem Confined.weaken (confined : Confined sound more good action)
    (weaker : ∀ arena, holds arena → more arena) : Confined sound holds good action :=
  fun pass enclosed given => confined pass enclosed (weaker _ given)

/-- A safe slot may be entered as a scope. -/
theorem Confined.inScope {scope : BlockId} (confined : Confined sound holds good action)
    (safe : ∀ arena, holds arena → arena.Safe scope) :
    Confined sound holds good (PassM.inScope scope action) := by
  intro pass enclosed given
  have entered : (enter scope pass).Enclosed sound :=
    { enclosed with scopes := List.forall_mem_cons.mpr ⟨safe _ given, enclosed.scopes⟩ }
  obtain ⟨result, after, ran, still, preserves, fine, inherent, blind⟩ :=
    confined (enter scope pass) entered given
  refine ⟨result, leave after, by simp only [PassM.inScope, ran],
    { still with scopes := fun other among => ?_ }, preserves, fine, inherent,
    fun arena agrees => ?_⟩
  · exact still.scopes other (List.mem_of_mem_tail among)
  · obtain ⟨twin, agreeing, again⟩ := blind arena agrees
    have same : action (enter scope { pass with arena }) = _ := again
    exact ⟨twin, agreeing, by simp only [PassM.inScope, same]; rfl⟩

theorem Confined.whileResolving {key : BlockId × String}
    (confined : Confined sound holds good action) :
    Confined sound holds good (PassM.whileResolving key action) := by
  intro pass enclosed given
  obtain ⟨result, after, ran, still, preserves, fine, inherent, blind⟩ :=
    confined { pass with resolving := key :: pass.resolving } { enclosed with } given
  refine ⟨result,
    { after with resolving := after.resolving.filter fun other => other != key },
    by simp only [PassM.whileResolving, ran],
    { still with }, preserves, fine, inherent, fun arena agrees => ?_⟩
  obtain ⟨twin, agreeing, again⟩ := blind arena agrees
  exact ⟨twin, agreeing, by simp only [PassM.whileResolving, again]⟩

theorem confined_joinMap {f : β → PassM σ Compound}
    {values : List β} (lasting : Arena.Lasting holds)
    (each : ∀ value ∈ values, Confined sound holds Arena.Covers (f value)) :
    Confined sound holds Arena.Covers (joinMap f values) := by
  induction values with
  | nil => exact confined_pure fun _ _ => Arena.covers_nil
  | cons value rest ih =>
      rw [List.forall_mem_cons] at each
      unfold joinMap
      refine each.1.bind lasting fun head => ?_
      refine ((ih each.2).weaken fun _ given => given.1).bind
        (lasting.and (Arena.lasting_covers head)) fun tail => ?_
      exact confined_pure fun _ given => Arena.covers_append.mpr ⟨given.1.2, given.2⟩

theorem confined_mapEntries {f : Compound → PassM σ Compound}
    {bindings : Bindings} (lasting : Arena.Lasting holds)
    (each : ∀ name value, (name, value) ∈ bindings →
      Confined sound holds Arena.Covers (f value)) :
    Confined sound holds Arena.CoversAll (mapEntries f bindings) := by
  induction bindings with
  | nil => exact confined_pure fun _ _ => Arena.coversAll_nil
  | cons binding rest ih =>
      obtain ⟨name, value⟩ := binding
      unfold mapEntries
      refine (each name value List.mem_cons_self).bind lasting fun head => ?_
      have others :=
        ih fun name value among => each name value (List.mem_cons_of_mem _ among)
      refine (others.weaken fun _ given => given.1).bind
        (lasting.and (Arena.lasting_covers head)) fun tail => ?_
      exact confined_pure fun _ given => Arena.coversAll_cons.mpr ⟨given.1.2, given.2⟩

/-- A block is made whose parent is safe and whose bindings name safe blocks only, and
bound anew; it stands as it was bound. -/
theorem confined_makeBlock {make : Arena → Except Arena.Fault (BlockId × Arena)}
    {bindings : Bindings} {next : BlockId → PassM σ α} (lasting : Arena.Lasting holds)
    (makes : ∀ arena, holds arena →
      ∃ block : Block, (∀ twin, arena.Agrees twin → make twin = .ok (twin.insert block)) ∧
      (∀ above, block.parent = some above → arena.Safe above) ∧ arena.CoversAll block.bindings)
    (bound : ∀ arena, holds arena → arena.CoversAll bindings)
    (continues : ∀ (fresh : BlockId) (block : Block), Confined sound
      (fun arena => holds arena ∧ arena.Safe fresh ∧ arena.Live fresh (block.rebind bindings))
      good (next fresh)) :
    Confined sound holds good
      (build make >>= fun fresh =>
        build (fun arena => (arena.bindAll fresh bindings).map ((), ·)) >>= fun _ =>
        next fresh) := by
  intro pass enclosed given
  obtain ⟨block, made, parent, covers⟩ := makes pass.arena given
  have extends_ := enclosed.free.insert block
  obtain ⟨final, rebound, whole⟩ := extends_.bindAll bindings
  have preserves := whole.preserving
  have safe : final.Safe (pass.arena.insert block).1 :=
    whole.safe_rebind parent covers (bound _ given)
  have still : ({ pass with arena := final } : Pass σ).Enclosed sound :=
    { sound := enclosed.sound
      free := whole.sound
      root := preserves.safe enclosed.root
      scopes := fun scope among => preserves.safe (enclosed.scopes scope among) }
  obtain ⟨result, last, ended⟩ :=
    continues (pass.arena.insert block).1 block { pass with arena := final } still
      ⟨lasting.kept preserves given, safe, whole.live⟩
  -- both steps in an arena that agrees with the one of the pass
  have runs {arena after : Arena} (agrees : pass.arena.Agrees arena)
      (binds : (arena.insert block).2.bindAll (arena.insert block).1 bindings = .ok after) :
        (build make >>= fun fresh =>
          build (fun arena => (arena.bindAll fresh bindings).map ((), ·)) >>= fun _ =>
        next fresh) { pass with arena } =
        next (arena.insert block).1 { pass with arena := after } := by
    have first : build make { pass with arena } =
        (.ok (arena.insert block).1,
          { pass with arena := (arena.insert block).2 }) := by simp [build, made arena agrees]
    have second :
        build (fun other => (other.bindAll (arena.insert block).1 bindings).map ((), ·))
          { pass with arena := (arena.insert block).2 } =
          (.ok (), { pass with arena := after }) := by
      simp [build, binds, Except.map]
    simp only [bind_run, first, second]
  refine ⟨result, last, (runs (.refl _) rebound).trans ended.ran, ended.enclosed,
    preserves.trans ended.preserves, ended.good, ended.inherent, fun arena agrees => ?_⟩
  obtain ⟨sameSlot, inserted⟩ := agrees.insert block
  obtain ⟨twin, again, agreeing⟩ := inserted.bindAll extends_.live rebound
  obtain ⟨other, agreed, further⟩ := ended.blind twin agreeing
  rw [← sameSlot] at again
  exact ⟨other, agreed, by rw [runs agrees again, sameSlot]; exact further⟩

/-- A block is made whose parent is safe and whose bindings name safe blocks
only, and bound anew. -/
theorem confined_make {make : Arena → Except Arena.Fault (BlockId × Arena)}
    {bindings : Bindings} {next : BlockId → PassM σ α} (lasting : Arena.Lasting holds)
    (makes : ∀ arena, holds arena →
      ∃ block : Block, (∀ twin, arena.Agrees twin → make twin = .ok (twin.insert block)) ∧
      (∀ above, block.parent = some above → arena.Safe above) ∧ arena.CoversAll block.bindings)
    (bound : ∀ arena, holds arena → arena.CoversAll bindings)
    (continues : ∀ fresh,
      Confined sound (fun arena => holds arena ∧ arena.Safe fresh) good (next fresh)) :
    Confined sound holds good
      (build make >>= fun fresh =>
        build (fun arena => (arena.bindAll fresh bindings).map ((), ·)) >>= fun _ =>
        next fresh) :=
  confined_makeBlock lasting makes bound
    fun fresh _ => (continues fresh).weaken fun _ given => ⟨given.1, given.2.1⟩

end PassM

end Rules

section Cases

variable {sound : σ → Prop} {recurse : Compound → PassM σ Compound}

/-- Terms that name safe blocks only reduce to such terms. -/
def Confining (sound : σ → Prop) (recurse : Compound → PassM σ Compound) : Prop :=
  ∀ terms,
    PassM.Confined sound (fun arena => arena.Covers terms) Arena.Covers (recurse terms)

open PassM Arena

theorem confined_lookup (scope : BlockId) (name : String) :
    Confined sound (fun arena => arena.Safe scope)
      (fun arena found => ∀ value, found = some value → arena.Covers value)
      (inspect fun arena => arena.lookup scope name : PassM σ (Option Compound)) :=
  confined_inspect (fun _ _ safe agrees => agrees.lookup safe)
    (fun _ _ safe read _ same => safe.lookup_covers (same ▸ read))
    fun _ _ safe failed => safe.lookup_error failed

theorem confined_getLocal (scope : BlockId) (name : String) :
    Confined sound (fun arena => arena.Safe scope)
      (fun arena found => ∀ value, found = some value → arena.Covers value)
      (inspect fun arena => arena.getLocal scope name : PassM σ (Option Compound)) := by
  have read {arena : Arena} (safe : arena.Safe scope) :
      ∃ block, arena.Live scope block ∧
        arena.getLocal scope name = .ok (block.get? name) := by
    obtain ⟨block, live⟩ := safe.live
    exact ⟨block, live, by rw [Arena.getLocal, Arena.get_ok live.1]; rfl⟩
  refine confined_inspect (fun _ _ safe agrees => agrees.getLocal safe)
    (fun arena found safe same value is => ?_) fun arena fault safe failed => ?_
  · obtain ⟨block, live, reads⟩ := read safe
    exact safe.covers live (Except.ok.inj (reads.symm.trans (is ▸ same)))
  · obtain ⟨block, live, reads⟩ := read safe
    cases reads.symm.trans failed

theorem Confining.reduceName (confining : Confining sound recurse) (name : String) :
    Confined sound (fun _ => True) Arena.Covers (Reduction.reduceName recurse name) := by
  have stays {holds : Arena → Prop} :
      Confined sound holds Arena.Covers (pure [.name name] : PassM σ Compound) :=
    confined_pure
      fun _ _ => covers_of_forall fun term inside => List.mem_singleton.mp inside ▸ rfl
  have entered : Confined sound (fun _ => True) (fun arena scope => arena.Safe scope)
      (view Pass.scope : PassM σ BlockId) := by
    refine confined_view (fun _ _ => rfl) fun pass enclosed _ => ?_
    unfold Pass.scope
    cases innermost : pass.scopes.head? with
    | none => exact enclosed.root
    | some scope => exact enclosed.scopes scope (List.mem_of_mem_head? innermost)
  unfold Reduction.reduceName
  refine entered.bind ⟨fun _ _ => trivial⟩ fun scope => ?_
  refine ((confined_lookup scope name).weaken fun _ given => given.2).bind
    ⟨fun preserves given => ⟨trivial, preserves.safe given.2⟩⟩ fun found => ?_
  cases found with
  | none => exact stays
  | some bound =>
      refine Confined.weaken ?_ fun _ given => given.2 bound rfl
      have views : Confined sound (fun arena => arena.Covers bound) (fun _ _ => True)
          (view fun pass => pass.resolving.contains (scope, name) : PassM σ Bool) :=
        confined_view (fun _ _ => rfl) fun _ _ _ => trivial
      refine views.bind (lasting_covers bound) fun resolving => ?_
      cases resolving with
      | true => exact stays
      | false => exact ((confining bound).weaken fun _ given => given.1).whileResolving

theorem Confining.reduceOutput (confining : Confining sound recurse)
    (cond : Cond) (branch : BlockId) (output : String) :
    Confined sound (fun arena => arena.Safe branch) Arena.Covers
      (Reduction.reduceOutput recurse cond branch output) := by
  unfold Reduction.reduceOutput
  refine (confined_getLocal branch output).bind (lasting_safe branch) fun found => ?_
  cases found with
  | none => exact confined_reject
  | some value =>
      exact ((confining value).weaken fun _ given => given.2 value rfl).inScope
        fun _ given => given.1

theorem Confining.reduceOutputs (confining : Confining sound recurse) (cond : Cond)
    (branch : BlockId) (outputs : List String) :
    Confined sound (fun arena => arena.Safe branch) Arena.CoversAll
      (Reduction.reduceOutputs recurse cond branch outputs) := by
  induction outputs with
  | nil => exact confined_pure fun _ _ => coversAll_nil
  | cons output rest ih =>
      unfold Reduction.reduceOutputs
      refine (confining.reduceOutput cond branch output).bind
        (lasting_safe branch) fun value => ?_
      refine (ih.weaken fun _ given => given.1).bind
        ((lasting_safe branch).and (lasting_covers value)) fun others => ?_
      exact confined_pure fun _ given => coversAll_cons.mpr ⟨given.1.2, given.2⟩

/-- A safe block may be copied and bound anew. -/
theorem confined_clone {α : Type} {good : Arena → α → Prop} {slot : BlockId}
    {bindings : Bindings} {next : BlockId → PassM σ α} {holds : Arena → Prop}
    (lasting : Lasting holds)
    (safe : ∀ arena, holds arena → arena.Safe slot)
    (bound : ∀ arena, holds arena → arena.CoversAll bindings)
    (continues : ∀ fresh,
      Confined sound (fun arena => holds arena ∧ arena.Safe fresh) good (next fresh)) :
    Confined sound holds good
      (build (fun arena => arena.cloneBlock slot) >>= fun fresh =>
        build (fun arena => (arena.bindAll fresh bindings).map ((), ·)) >>=
          fun _ => next fresh) := by
  refine confined_make lasting (fun arena given => ?_) bound continues
  obtain ⟨block, live⟩ := (safe arena given).live
  refine ⟨block, fun twin agrees => ?_, fun above => (safe arena given).parent live,
    (safe arena given).coversAll live⟩
  rw [cloneBlock, get_ok (agrees.live live).1]
  rfl

theorem Confining.residualBranch (confining : Confining sound recurse)
    (cond : Cond) (branch : BlockId) :
    Confined sound (fun arena => arena.Safe branch) Arena.Safe
      (Reduction.residualBranch recurse cond branch) := by
  unfold Reduction.residualBranch
  refine (confining.reduceOutputs cond branch _).bind (lasting_safe branch) fun outputs => ?_
  exact confined_clone ((lasting_safe branch).and (lasting_coversAll outputs))
    (fun _ given => given.1)
    (fun _ given => given.2) fun fresh => confined_pure fun _ given => given.2

theorem Confining.reduceCond (confining : Confining sound recurse) (cond : Cond) :
    Confined sound (fun arena => arena.Covers [cond.toTerm]) Arena.Covers
      (Reduction.reduceCond recurse cond) := by
  unfold Reduction.reduceCond
  refine ((confining cond.condition).weaken fun _ given => (covers_cond.mp given).1).bind
    (lasting_covers _) fun condition => ?_
  cases cond.prototype.output? cond.channel with
  | none => exact confined_reject
  | some output =>
      simp only [Reduction.require, pure_bind]
      cases chosen : Reduction.decide? cond condition with
      | some branch =>
          refine (confining.reduceOutput cond branch output).weaken fun arena given => ?_
          obtain ⟨_, thenBlock, elseBlock⟩ := covers_cond.mp given.1
          unfold Reduction.decide? at chosen
          split at chosen
          · exact Option.some.inj chosen ▸ elseBlock
          · split at chosen
            · exact Option.some.inj chosen ▸ thenBlock
            · simp at chosen
      | none =>
          have lasting := (lasting_covers [cond.toTerm]).and (lasting_covers condition)
          refine ((confining.residualBranch cond cond.thenBlock).weaken fun _ given =>
            (covers_cond.mp given.1).2.1).bind lasting fun thenBlock => ?_
          refine ((confining.residualBranch cond cond.elseBlock).weaken fun _ given =>
            (covers_cond.mp given.1.1).2.2).bind (lasting.and (lasting_safe thenBlock))
            fun elseBlock => ?_
          exact confined_pure fun _ given => covers_cond.mpr ⟨given.1.1.2, given.1.2, given.2⟩

theorem Confining.reduceNative (confining : Confining sound recurse)
    (native : NativeLambda) (invocation : Invocation) (output : String) :
    Confined sound (fun arena => arena.Safe native.body ∧ arena.CoversAll invocation.bindings)
      Arena.Covers (Reduction.reduceNative recurse native invocation output) := by
  have lasting := (lasting_safe native.body).and (lasting_coversAll invocation.bindings)
  unfold Reduction.reduceNative
  refine confined_make lasting (fun arena given => ?_) (fun _ given => given.2) fun scope => ?_
  · obtain ⟨block, live⟩ := given.1.live
    refine ⟨{ parent := some native.body }, fun twin agrees => ?_,
      fun above parent => Option.some.inj parent ▸ given.1, coversAll_nil⟩
    exact alloc_of_block? (agrees.live live).1
  · refine Confined.inScope ?_ fun _ given => given.2
    refine ((confined_lookup scope output).weaken fun _ given => given.2).bind
      (lasting.and (lasting_safe scope)) fun found => ?_
    cases found with
    | none => exact confined_reject
    | some value => exact (confining value).weaken fun _ given => given.2 value rfl

theorem confined_bindParams (native : NativeLambda) (bindings : Bindings) :
    Confined sound
      (fun arena => arena.Covers [.lambda (.native native)] ∧ arena.CoversAll bindings)
      (fun arena lambda => arena.Safe lambda.body)
      (Reduction.bindParams native bindings : PassM σ NativeLambda) :=
  confined_clone ((lasting_covers _).and (lasting_coversAll bindings))
    (fun _ given => covers_native.mp given.1)
    (fun _ given => given.2) fun _ => confined_pure fun _ given => given.2

theorem Confining.closeCurry (curry : Curry) (task : Compound) (bindings : Bindings) :
    Confined sound (fun arena => arena.Covers task ∧ arena.CoversAll bindings) Arena.Covers
      (Reduction.closeCurry curry task bindings : PassM σ Compound) := by
  have stays : Confined sound (fun arena => arena.Covers task ∧ arena.CoversAll bindings)
      Arena.Covers (pure [Curry.toTerm { task := some task, bindings }] : PassM σ Compound) :=
    confined_pure fun _ given => covers_curry.mpr given
  unfold Reduction.closeCurry
  split
  · exact confined_reject
  next native =>
    have lasting :=
      (lasting_covers [.lambda (.native native)]).and (lasting_coversAll bindings)
    exact (confined_bindParams native bindings).bind lasting fun bound =>
      confined_pure fun _ given => covers_native.mpr given.2
  · exact confined_reject
  · split
    · exact confined_reject
    · exact stays
  · exact stays

theorem Confining.reduceCurry (confining : Confining sound recurse) (curry : Curry) :
    Confined sound (fun arena => arena.Covers [curry.toTerm]) Arena.Covers
      (Reduction.reduceCurry recurse curry) := by
  have parts {arena : Arena} {task : Compound} (here : curry.task = some task)
      (covers : arena.Covers [curry.toTerm]) : arena.Covers task ∧
      arena.CoversAll curry.bindings := by
    rw [Curry.toTerm, here] at covers
    exact covers_curry.mp covers
  unfold Reduction.reduceCurry
  split
  · exact confined_reject
  · exact confined_reject
  next term here =>
    refine ((confining [term]).weaken fun _ given => (parts here given).1).bind
      (lasting_covers _) fun task => ?_
    have lasting := (lasting_covers [curry.toTerm]).and (lasting_covers task)
    refine (confined_mapEntries lasting fun name value among => (confining value).weaken
      fun arena given => covers_iff.mpr fun other inside => ?_).bind lasting fun bindings => ?_
    · exact coversAll_iff.mp (parts here given.1).2 other ⟨_, among, inside⟩
    · exact (Confining.closeCurry curry task bindings).weaken fun _ given =>
        ⟨given.1.2, given.2⟩
  · exact confined_pure fun _ given => given

variable [TicketSource σ] (blockless : TicketSource.Blockless sound)
include blockless

theorem confined_resolve (placeholder : Placeholder) :
    Confined sound (fun _ => True) Arena.Covers
      (Reduction.resolve placeholder : PassM σ Compound) := by
  have asked : Confined sound (fun _ => True)
      (fun _ output => ∀ value, output = some value → ∀ term ∈ value, term.blocks = [])
      (ask fun source => TicketSource.read source placeholder.ticket placeholder.channel) :=
    confined_ask (fun _ => blockless.read)
      fun _ holds _ stored => blockless.blockless holds stored
  refine asked.bind ⟨fun _ _ => trivial⟩ fun output => ?_
  refine confined_pure fun arena given => covers_of_forall fun term inside => ?_
  cases output with
  | none => exact List.mem_singleton.mp inside ▸ rfl
  | some value => exact given.2 value rfl term inside

theorem confined_requestTicket (apply : Apply) {holds : Arena → Prop} :
    Confined sound holds (fun _ _ => True)
      (Reduction.requestTicket apply : PassM σ Placeholder) := by
  intro pass enclosed _
  cases asked : TicketSource.request pass.source pass.consumer pass.query apply with
  | ok granted =>
      obtain ⟨placeholder, source⟩ := granted
      have ran (arena : Arena) : Reduction.requestTicket apply { pass with arena } =
          (.ok placeholder, { pass with source, arena }) := by
        simp only [Reduction.requestTicket, asked]
      exact ⟨_, _, ran pass.arena,
        { enclosed with sound := blockless.granted enclosed.sound asked },
        .refl _, fun _ _ => trivial, fun _ same => (by cases same),
        fun arena agrees => ⟨arena, agrees, ran arena⟩⟩
  | error error =>
      have ran (arena : Arena) : Reduction.requestTicket apply { pass with arena } =
          (.error (.rejected (.ticket error)), { pass with arena }) := by
        simp only [Reduction.requestTicket, asked]
      refine ⟨_, _, ran pass.arena, enclosed, .refl _, fun _ _ => trivial,
        fun reason same fault is => ?_, fun arena agrees => ⟨arena, agrees, ran arena⟩⟩
      cases (Except.error.inj same).trans is

theorem Confining.reduceInvocation
    (confining : Confining sound recurse) (invocation : Invocation) :
    Confined sound (fun arena => arena.Covers [.lambda invocation.lambda] ∧
      arena.CoversAll invocation.bindings)
      Arena.Covers (Reduction.reduceInvocation recurse invocation) := by
  have lasting :=
    (lasting_covers [.lambda invocation.lambda]).and (lasting_coversAll invocation.bindings)
  unfold Reduction.reduceInvocation
  cases invocation.lambda.prototype.output? invocation.channel with
  | none => exact confined_reject
  | some output =>
      simp only [Reduction.require, pure_bind]
      split
      next native task =>
        exact (confining.reduceNative native invocation output).weaken fun arena given =>
          ⟨covers_native.mp (task ▸ given.1), given.2⟩
      next lambda task =>
        split
        · exact (confined_requestTicket blockless _).bind lasting fun placeholder =>
            (confined_resolve blockless placeholder).weaken fun _ _ => trivial
        · exact confined_pure fun _ given => covers_apply.mpr given

theorem Confining.reducePart (confining : Confining sound recurse) {apply : Apply}
    {part : Part} (stems : part.StemsFrom apply) :
    Confined sound (fun arena => arena.Covers apply.task ∧ arena.CoversAll apply.bindings)
      Arena.Covers (Reduction.reducePart recurse part) := by
  have narrowed {arena : Arena} {terms : Compound} (covers : arena.Covers apply.task)
      (among : ∀ term ∈ terms, term ∈ apply.task) : arena.Covers terms :=
    covers_iff.mpr fun term inside => covers_iff.mp covers term (among term inside)
  have narrowedAll {arena : Arena} {bindings : Bindings}
      (covers : arena.CoversAll apply.bindings)
      (among : ∀ term, BoundIn bindings term → BoundIn apply.bindings term) :
      arena.CoversAll bindings :=
    coversAll_iff.mpr fun term bound => coversAll_iff.mp covers term (among term bound)
  cases part with
  | keep kept =>
      exact confined_pure fun _ given =>
        covers_apply.mpr ⟨narrowed given.1 stems.1, narrowedAll given.2 stems.2⟩
  | invoke invocation =>
      refine (confining.reduceInvocation blockless invocation).weaken fun arena given =>
        ⟨narrowed given.1 fun term inside => ?_, narrowedAll given.2 stems.2⟩
      exact List.mem_singleton.mp inside ▸ stems.1
  | reject error => exact confined_reject

theorem Confining.reduceApply (confining : Confining sound recurse) (apply : Apply) :
    Confined sound (fun arena => arena.Covers [apply.toTerm]) Arena.Covers
      (Reduction.reduceApply recurse apply) := by
  unfold Reduction.reduceApply
  refine ((confining apply.task).weaken fun _ given => (covers_apply.mp given).1).bind
    (lasting_covers _) fun task => ?_
  have lasting := (lasting_covers [apply.toTerm]).and (lasting_covers task)
  refine (confined_mapEntries lasting fun name value among => (confining value).weaken
    fun arena given => covers_iff.mpr fun other inside => ?_).bind lasting fun bindings => ?_
  · exact coversAll_iff.mp (covers_apply.mp given.1).2 other ⟨_, among, inside⟩
  · refine (confined_joinMap ((lasting_covers task).and (lasting_coversAll bindings))
      fun part member => ?_).weaken fun _ given => ⟨given.1.2, given.2⟩
    exact confining.reducePart blockless (Apply.stems_of_mem_expand member)

theorem Confining.reduceTerm (confining : Confining sound recurse) (term : Term) :
    Confined sound (fun arena => arena.Covers [term]) Arena.Covers
      (Reduction.reduceTerm recurse term) := by
  have stays : Confined sound (fun arena => arena.Covers [term]) Arena.Covers
      (pure [term] : PassM σ Compound) :=
    confined_pure fun _ given => given
  cases term with
  | str value => exact stays
  | lambda value => exact stays
  | name name => exact (confining.reduceName name).weaken fun _ _ => trivial
  | ticket placeholder =>
      exact (confined_resolve blockless placeholder).weaken fun _ _ => trivial
  | cond condition prototype channel thenBlock elseBlock =>
      exact confining.reduceCond { condition, prototype, channel, thenBlock, elseBlock }
  | apply task bindings channel rest =>
      exact confining.reduceApply blockless { task, bindings, channel, rest }
  | curry task bindings => exact confining.reduceCurry { task, bindings }

theorem confining_reduce (depth : Nat) :
    Confining sound (Reduction.reduce depth : Compound → PassM σ Compound) := by
  induction depth with
  | zero => exact fun _ => confined_halt fun _ same => nomatch same
  | succ depth ih =>
      refine fun terms => confined_joinMap (lasting_covers terms) fun term member => ?_
      exact (ih.reduceTerm blockless term).weaken fun arena given =>
        covers_singleton.mpr (covers_iff.mp given term member)

theorem confined_reduceTargets (depth : Nat) (targets : List Compound) :
    Confined sound (fun arena => ∀ target ∈ targets, arena.Covers target)
      (fun arena results => ∀ result ∈ results, arena.Covers result)
      (Reduction.reduceTargets depth targets : PassM σ (List Compound)) := by
  have lasting (targets : List Compound) :
      Lasting fun arena => ∀ target ∈ targets, arena.Covers target :=
    ⟨fun preserves given target among => preserves.covers (given target among)⟩
  induction targets with
  | nil => exact confined_pure fun _ given => given
  | cons target rest ih =>
      unfold Reduction.reduceTargets
      refine ((confining_reduce blockless depth target).weaken
        fun _ given => given target List.mem_cons_self).bind (lasting _) fun head => ?_
      refine (ih.weaken
        fun _ given other among => given.1 other (List.mem_cons_of_mem _ among)).bind
        ((lasting _).and (lasting_covers head)) fun tail => ?_
      exact confined_pure fun _ given => List.forall_mem_cons.mpr ⟨given.1.2, given.2⟩

end Cases

namespace Context

section Passes

variable [TicketSource σ] {sound : σ → Prop} {context after : Context} {depth : Nat}
  {source : σ} {consumer : ConsumerId} {query : QueryId}

/-- Reducing the context accesses no slot beyond its arena and leaves no block
id dangling; what is in released slots makes no difference to the outcome or
to the blocks in use. -/
structure Confines (context : Context) (depth : Nat) (source : σ) (consumer : ConsumerId)
    (query : QueryId) : Prop where
  closed : (context.reduce depth source consumer query).context.Closed
  inherent :
    ∀ reason, (context.reduce depth source consumer query).outcome = .error reason →
    reason.IsInherent
  blind : ∀ arena, context.arena.Agrees arena →
    ∃ twin, (context.reduce depth source consumer query).context.arena.Agrees twin ∧
      ({ context with arena } : Context).reduce depth source consumer query =
        { context.reduce depth source consumer query with
          context :=
            { (context.reduce depth source consumer query).context with arena := twin } }

/-- One pass over the context, for some query and with what some sound source
knows, leaves the other. -/
def PassesTo (sound : σ → Prop) (before after : Context) : Prop :=
  ∃ (depth : Nat) (source : σ) (consumer : ConsumerId) (query : QueryId),
    sound source ∧ (before.reduce depth source consumer query).context = after

theorem Closed.confines (closed : context.Closed)
    (blockless : TicketSource.Blockless sound) (holds : sound source) :
    context.Confines depth source consumer query := by
  obtain ⟨root, targets⟩ := intact_iff.mp closed.intact
  have begins :
      (Pass.start consumer query source context.arena context.root).Enclosed sound :=
    ⟨holds, closed.free, root, fun _ among => absurd among List.not_mem_nil⟩
  obtain ⟨result, pass, ran, still, preserves, fine, inherent, blind⟩ :=
    confined_reduceTargets blockless depth context.targets _ begins targets
  have twins (arena : Arena) (agrees : context.arena.Agrees arena) :
      ∃ twin, pass.arena.Agrees twin ∧ Reduction.reduceTargets depth context.targets
      (Pass.start consumer query source arena context.root) =
        (result, { pass with arena := twin }) := blind arena agrees
  have safe : pass.arena.Safe context.root := preserves.safe root
  cases result with
  | error reason =>
      have reduced : context.reduce depth source consumer query =
          { outcome := .error reason, context := { context with arena := pass.arena },
            source := pass.source } := by
        simp only [Context.reduce, ran]
      refine ⟨?_, fun other same => ?_, fun arena agrees => ?_⟩
      · rw [reduced]
        exact ⟨still.free,
          intact_iff.mpr ⟨safe, fun target among => preserves.covers (targets target among)⟩⟩
      · rw [reduced] at same
        exact inherent other (congrArg Except.error (Except.error.inj same))
      · obtain ⟨twin, agreeing, again⟩ := twins arena agrees
        rw [reduced]
        exact ⟨twin, agreeing, by simp only [Context.reduce, again]⟩
  | ok results =>
      have covers := fine results rfl
      have reduced : context.reduce depth source consumer query =
          { outcome := .ok results.flatten
            context :=
              { context with
                targets := results, arena := pass.arena.collected [context.root] results }
            source := pass.source } := by
        simp only [Context.reduce, ran]
        rfl
      refine ⟨?_, fun other same => ?_, fun arena agrees => ?_⟩
      · rw [reduced]
        refine ⟨pass.arena.sound_collected _ _,
          intact_iff.mpr ⟨safe.collected (.inl List.mem_cons_self), ?_⟩⟩
        exact fun target among block named =>
          (covers target among block named).collected
            (.inr (List.mem_flatMap.mpr ⟨target, among, named⟩))
      · rw [reduced] at same
        simp at same
      · obtain ⟨twin, agreeing, again⟩ := twins arena agrees
        rw [reduced]
        refine ⟨_, .refl _, ?_⟩
        simp only [Context.reduce, again]
        rw [Arena.collect,
          agreeing.collected (fun slot among => List.mem_singleton.mp among ▸ safe) covers]

/-- However many passes there were over a context without dangling block ids, none
dangles after the last one, and the next pass accesses no slot beyond the arena and
reads no released slot. -/
theorem Closed.confines_after_passes (closed : context.Closed)
    (literal : TicketSource.Literal sound)
    (passes : Relation.ReflTransGen (PassesTo sound) context after) :
    after.Closed ∧ ∀ {source : σ}, sound source → ∀ (depth : Nat) (consumer : ConsumerId)
      (query : QueryId), after.Confines depth source consumer query := by
  have still : after.Closed := by
    induction passes with
    | refl => exact closed
    | tail _ last ih =>
        obtain ⟨depth, source, consumer, query, holds, rfl⟩ := last
        exact (ih.confines literal.blockless holds).closed
  exact ⟨still, fun holds depth consumer query => still.confines literal.blockless holds⟩

end Passes

/-- The first of two calls can be made at once, the second one waits for a ticket. -/
def calledThenWaiting : Context where
  arena := {
    blocks := #[{}, { parent := some ⟨0⟩, bindings := [("y", [.name "x"])] },
      { parent := some ⟨0⟩, bindings := [("y", [.name "x"])] }] }
  root := ⟨0⟩
  targets := [
    [.apply [.lambda (.native ⟨{ params := [.plain "x"], outputs := ["y"] }, ⟨1⟩⟩)]
      [("x", [.str "a"])] 1 false],
      [.apply [.lambda (.native ⟨{ params := [.plain "x"], outputs := ["y"] }, ⟨2⟩⟩)]
      [("x", [.ticket ⟨⟨List.replicate 32 0, Digest.length_zeros⟩, 1, "y"⟩])] 1 false]]

/-- What the first pass leaves: the body of the first lambda is released. -/
def calledOnce : Context :=
  (calledThenWaiting.reduce 5 (Store.shared none) ⟨1⟩ ⟨1⟩).context

theorem confines_calledOnce :
    calledOnce.arena.free = [⟨1⟩] ∧
      (calledOnce.reduce 5 Store.finishing ⟨1⟩ ⟨1⟩).outcome = .ok [.str "a", .str "b"] ∧
      calledOnce.Closed ∧ calledOnce.Confines 5 Store.finishing ⟨1⟩ ⟨1⟩ := by
  have closed : calledThenWaiting.Closed :=
    closed_of_whole rfl (by decide) (by decide) (by decide)
  have quiet : Contended.Sound (fun _ => True) { source := Store.shared none } :=
    ⟨trivial, by simp⟩
  obtain ⟨still, confines⟩ := closed.confines_after_passes Store.literal.contended
    (.single ⟨5, { source := Store.shared none }, ⟨1⟩, ⟨1⟩, quiet, rfl⟩)
  exact ⟨rfl, rfl, still, confines Store.sound_finishing 5 ⟨1⟩ ⟨1⟩⟩

end Context

end TicketFlow
