import Mathlib.Data.Prod.Basic
import TicketFlow.Proofs.Arena.Search
import TicketFlow.Proofs.Evaluation.Store
import TicketFlow.Proofs.Evaluation.Transfer
import TicketFlow.Proofs.Stability.Tour

namespace TicketFlow

/-! Delaying a conditional.

A conditional that cannot be decided yet stays, with copies for its branches in
which every declared output is reduced already.  What is left of an output has
no bound name in it, so it comes to the same in the copy as it would have in
the branch: as soon as more results decide the condition, the residual gives
what the conditional itself would have given.
-/

section Visible

/-- What a name stands for as seen from a slot, if the search for it finds something. -/
def Arena.visible (arena : Arena) (slot : BlockId) (name : String) : Option Compound :=
  (arena.lookup slot name).toOption.join

variable {arena before after : Arena} {slot fresh : BlockId} {name : String}
  {found : Option Compound} {block : Block}

namespace Arena

theorem visible_of_lookup (read : arena.lookup slot name = .ok found) :
    arena.visible slot name = found := by
  rw [visible, read]
  rfl

theorem lookup_of_visible {value : Compound}
    (sees : arena.visible slot name = some value) :
    arena.lookup slot name = .ok (some value) := by
  unfold visible at sees
  cases read : arena.lookup slot name with
  | error fault => simp [read, Except.toOption] at sees
  | ok found =>
      have same : found = some value := by simpa [read, Except.toOption] using sees
      rw [same]

theorem get?_filterMap {f : String → Option Compound} {names : List String} :
    OrderedMap.get? (names.filterMap fun name => (f name).map (name, ·)) name =
      if name ∈ names then f name else none := by
  induction names with
  | nil => rfl
  | cons first rest ih =>
      cases here : f first with
      | none =>
          rw [List.filterMap_cons, here, Option.map_none]
          simp only [ih]
          by_cases same : name = first
          · simp [same, here]
          · simp [same]
      | some value =>
          rw [List.filterMap_cons, here, Option.map_some]
          simp only [OrderedMap.get?, ih]
          by_cases same : first = name
          · simp [← same, here]
          · simp [same, Ne.symm same]

/-- All that is seen from a slot could be bound in one block without a parent. -/
theorem exists_flat (arena : Arena) (slot : BlockId) :
    ∃ block : Block, block.parent = none ∧ block.get? = arena.visible slot := by
  let names := arena.blocks.toList.flatMap fun block => block.bindings.keys
  let bindings : Bindings :=
    names.filterMap fun name => (arena.visible slot name).map (name, ·)
  refine ⟨{ bindings }, rfl, funext fun name => ?_⟩
  have read : OrderedMap.get? bindings name =
      if name ∈ names then arena.visible slot name else none := get?_filterMap
  rw [Block.get?, read]
  cases sees : arena.visible slot name with
  | none => simp
  | some value =>
      obtain ⟨holder, block, stored, bound⟩ := lookup_ok (lookup_of_visible sees)
      refine if_pos (List.mem_flatMap.mpr
        ⟨block, Array.mem_toList_iff.mpr (Array.mem_of_getElem? stored), ?_⟩)
      exact List.mem_map.mpr ⟨_, OrderedMap.mem_of_get? bound, rfl⟩

/-- In a copy that binds anew what was bound before, no name is found that was not
found from the original. -/
theorem Preserves.lookup_copy {outputs : Bindings} (preserves : before.Preserves after)
    (safe : before.Safe slot) (live : before.Live slot block)
    (copy : after.block? fresh = some (block.rebind outputs))
    (bound : ∀ output ∈ outputs.keys, ∃ value, block.get? output = some value)
    (read : before.lookup slot name = .ok none) : after.lookup fresh name = .ok none := by
  have unbound
      (absent : block.get? name = none) : (block.rebind outputs).get? name = none := by
    rw [Block.get?_rebind_of_not_mem fun among => ?_, absent]
    obtain ⟨value, here⟩ := bound name among
    simp [absent] at here
  obtain ⟨path, finds⟩ := lookup_ok_iff.mp read
  cases finds with
  | nowhere stored absent parentless =>
      obtain rfl := Option.some.inj (live.1.symm.trans stored)
      exact lookup_ok_iff.mpr ⟨_, .nowhere copy (unbound absent) parentless⟩
  | above stored absent parent further =>
      obtain rfl := Option.some.inj (live.1.symm.trans stored)
      have onward := preserves.finds (safe.parent live parent) further
      exact lookup_ok_iff.mpr ⟨_, .above copy (unbound absent) parent onward⟩

end Arena

end Visible

section Plain

variable {known more : Store} {lookup : String → Option Compound} {depth : Nat}
  {compound residual result : Compound} {pass after : Pass Store} {consumer : ConsumerId}
  {query : QueryId} {flat : Block}

theorem Store.speaks : TicketSource.Speaks Store := by
  intro store id channel value known term inside
  obtain ⟨texts, _, rfl⟩ := Option.map_eq_some_iff.mp known
  obtain ⟨text, _, rfl⟩ := List.mem_map.mp inside
  exact ⟨text, rfl⟩

/-- A pass with the store that resolves no name yet, and in whose scope every search that
ends finds what the name stands for. -/
structure Pass.Sees (store : Store) (lookup : String → Option Compound)
    (pass : Pass Store) : Prop where
  source : pass.source = store
  resolving : pass.resolving = []
  reads :
    ∀ {name found}, pass.arena.lookup pass.scope name = .ok found → found = lookup name

/-- A pass in an arena that has one block. -/
def Pass.inBlock (consumer : ConsumerId) (query : QueryId) (store : Store)
    (block : Block) : Pass Store :=
  .start consumer query store { blocks := #[block] } ⟨0⟩

theorem Pass.ready_inBlock (parentless : flat.parent = none) (consumer : ConsumerId)
    (query : QueryId) (store : Store) (names : List String) :
    (Pass.inBlock consumer query store flat).Ready flat.get? consumer query
      (fun source => source = store) names :=
  Pass.ready_start (by rfl) parentless (by rfl) names

/-- What a pass leaves of a plain compound can be taken up by a pass with a larger store;
nothing else changes. -/
theorem Store.Within.leaves (within : known.Within more)
    (parentless : flat.parent = none) (scope : PlainScope flat.get?)
    (plain : Term.AreAllPlain flat.get? compound) (sees : pass.Sees known flat.get?)
    (ran : Reduction.reduce depth compound pass = (.ok residual, after)) :
    after = pass ∧ Resumed more.oracle flat.get? (known = more) depth compound residual ∧
      ∀ term ∈ residual, term.Loose pass.arena pass.scope := by
  have ready :=
    Pass.ready_inBlock parentless pass.consumer pass.query known (Term.namesOfAll compound)
  have echoes : pass.Echoes flat.get? (Term.namesOfAll compound)
      (.inBlock pass.consumer pass.query known flat) :=
    { consumer := rfl
      query := rfl
      reads := fun _ read => ⟨sees.reads read, (sees.reads read).symm ▸ ready.reads _⟩
      resolving := by simp [sees.resolving, Pass.inBlock, Pass.start] }
  have same : { pass with source := known } = pass := by rw [← sees.source]
  rw [← same] at ran
  obtain ⟨next, rfl, again, loose⟩ :=
    Reduction.echoed_reduce Store.speaks scope depth plain echoes known residual after ran
  obtain ⟨⟨_, kept⟩, resumed, _⟩ :=
    (within.backs pass.consumer pass.query).yields_reduce scope depth plain _ ready
  have outcome : Reduction.reduce depth compound
      (Pass.inBlock pass.consumer pass.query known flat) = (.ok residual, _) := again
  rw [outcome] at kept resumed
  have still : next = known := kept rfl
  exact ⟨by rw [still, same], resumed residual rfl, loose⟩

/-- Where the names in it are bound nowhere, what was left of a compound comes to
the value that it has. -/
theorem Store.reduce_residual (parentless : flat.parent = none)
    (scope : PlainScope flat.get?) (plain : Term.AreAllPlain flat.get? residual)
    (valued : more.oracle.eval flat.get? depth residual = some result)
    (unbound : ∀ name ∈ Term.namesOfAll residual, flat.get? name = none ∧
      pass.arena.lookup pass.scope name = .ok none) (source : pass.source = more)
    (resolving : pass.resolving = []) :
    Reduction.reduce depth residual pass = (.ok result, pass) := by
  have ready :=
    Pass.ready_inBlock parentless pass.consumer pass.query more (Term.namesOfAll residual)
  have echoes : (Pass.inBlock pass.consumer pass.query more flat).Echoes flat.get?
      (Term.namesOfAll residual) pass :=
    { consumer := rfl
      query := rfl
      reads := by
        rintro name found ⟨outer, among, leads⟩ read
        -- nothing is bound, so no other name comes up
        obtain rfl | ⟨_, ⟨bound, bindsTo, _⟩, _⟩ := Relation.ReflTransGen.cases_head leads
        · obtain rfl : flat.get? outer = found :=
            Except.ok.inj ((ready.reads outer).symm.trans read)
          rw [(unbound outer among).1]
          exact ⟨rfl, (unbound outer among).2⟩
        · simp [(unbound outer among).1] at bindsTo
      resolving := by simp [resolving, Pass.inBlock, Pass.start] }
  obtain ⟨⟨_, kept⟩, resumed, ends⟩ :=
    ((Store.Within.refl more).backs pass.consumer pass.query).yields_reduce scope
      depth plain _ ready
  obtain ⟨value, reduced⟩ := ends ⟨trivial, rfl, result, valued⟩
  obtain rfl : value = result :=
    Option.some.inj (((resumed value reduced).value rfl).symm.trans valued)
  obtain ⟨next, moved, again, _⟩ :=
    Reduction.echoed_reduce Store.speaks scope depth plain echoes more value _
      (Prod.ext reduced rfl)
  have still : next = more := (congrArg Pass.source moved).symm.trans (kept rfl)
  have same : { pass with source := more } = pass := by rw [← source]
  rwa [still, same] at again

end Plain

section Runs

variable {σ : Type} {recurse : Compound → PassM σ Compound} {cond : Cond}
  {branch fresh : BlockId} {output : String} {outputs : List String} {pass final : Pass σ}
  {value : Compound}

namespace Reduction

theorem reduceOutput_ok_iff :
    reduceOutput recurse cond branch output pass = (.ok value, final) ↔
      ∃ bound after, pass.arena.getLocal branch output = .ok (some bound) ∧
      recurse bound (PassM.enter branch pass) = (.ok value, after) ∧
      PassM.leave after = final := by
  cases read : pass.arena.getLocal branch output with
  | error fault => simp [reduceOutput, PassM.bind_run, PassM.inspect, read]
  | ok found =>
      cases found with
      | none =>
          simp [reduceOutput, PassM.bind_run, PassM.inspect, read, require,
            PassM.reject, PassM.halt]
      | some bound =>
          cases outcome : recurse bound (PassM.enter branch pass) with
          | mk result after =>
              simp [reduceOutput, PassM.bind_run, PassM.inspect, read, require,
                PassM.inScope, outcome]

theorem residualBranch_ok_iff :
    residualBranch recurse cond branch pass = (.ok fresh, final) ↔
      ∃ results reached cloned arena,
      reduceOutputs recurse cond branch cond.prototype.outputs pass =
        (.ok results, reached) ∧ reached.arena.cloneBlock branch = .ok (fresh, cloned) ∧
        cloned.bindAll fresh results = .ok arena ∧ { reached with arena } = final := by
  simp only [residualBranch, PassM.bind_ok_iff]
  constructor
  · rintro ⟨results, reached, ran, copy, copied, cloning, _, rebound, binding, ended⟩
    unfold PassM.build at cloning binding
    cases cloned : reached.arena.cloneBlock branch with
    | error fault => simp [cloned] at cloning
    | ok made =>
        simp only [cloned, Prod.mk.injEq, Except.ok.injEq] at cloning
        obtain ⟨rfl, rfl⟩ := cloning
        cases bound : made.2.bindAll made.1 results with
        | error fault => simp [bound, Except.map] at binding
        | ok arena =>
            simp only [bound, Except.map, Prod.mk.injEq, true_and] at binding
            simp only [PassM.pure_run, Prod.mk.injEq, Except.ok.injEq] at ended
            obtain ⟨rfl, rfl⟩ := ended
            exact ⟨results, reached, made.2, arena, ran, cloned, bound, binding⟩
  · rintro ⟨results, reached, cloned, arena, ran, cloning, bound, rfl⟩
    refine ⟨results, reached, ran, fresh, { reached with arena := cloned }, ?_, (), _, ?_, rfl⟩
    · simp [PassM.build, cloning]
    · simp [PassM.build, bound, Except.map]

theorem reduceCond_ok_iff : reduceCond recurse cond pass = (.ok value, final) ↔
    ∃ condition reached output, recurse cond.condition pass = (.ok condition, reached) ∧
      cond.prototype.output? cond.channel = some output ∧
      ((∃ branch, decide? cond condition = some branch ∧
          reduceOutput recurse cond branch output reached = (.ok value, final)) ∨
        decide? cond condition = none ∧ ∃ thenBlock elseBlock between,
          residualBranch recurse cond cond.thenBlock reached = (.ok thenBlock, between) ∧
          residualBranch recurse cond cond.elseBlock between = (.ok elseBlock, final) ∧
          value = [Cond.toTerm { cond with condition, thenBlock, elseBlock }]) := by
  simp only [reduceCond, PassM.bind_ok_iff]
  refine exists_congr fun condition => exists_congr fun reached => ?_
  cases offered : cond.prototype.output? cond.channel with
  | none => simp [require, PassM.reject, PassM.halt]
  | some output =>
      cases decided : decide? cond condition with
      | some branch => simp [require]
      | none =>
          simp only [require, PassM.bind_ok_iff, PassM.pure_run, Prod.mk.injEq,
            Except.ok.injEq, reduceCtorEq, false_and, exists_false, false_or, true_and]
          constructor
          · rintro ⟨ran, _, _,
                ⟨rfl, rfl⟩, thenBlock, between, first, elseBlock, _, second, rfl, rfl⟩
            exact ⟨output, ran, rfl, thenBlock, elseBlock, between, first, second, rfl⟩
          · rintro ⟨_, ran, _, thenBlock, elseBlock, between, first, second, rfl⟩
            exact ⟨ran, output, reached,
              ⟨rfl, rfl⟩, thenBlock, between, first, elseBlock, final, second, rfl, rfl⟩

theorem reduce_cond (depth : Nat) [TicketSource σ] :
    (reduce (depth + 1) [cond.toTerm] : PassM σ Compound) = reduceCond (reduce depth) cond :=
  PassM.joinMap_singleton _ _

end Reduction

end Runs

section Branches

variable {known more : Store} {exact : Prop} {depth : Nat} {base arena later : Arena}
  {cond : Cond} {branch fresh : BlockId} {names : List String} {pass final : Pass Store}

/-- In the fresh slot stands a copy of the branch that has the names bound to
what was left of them. -/
def Arena.Branched (base : Arena) (more : Store) (exact : Prop) (depth : Nat)
    (branch : BlockId) (names : List String) (arena : Arena) (fresh : BlockId) : Prop :=
  ∃ (block : Block) (outputs : Bindings), base.Live branch block ∧
    arena.Live fresh (block.rebind outputs) ∧ outputs.keys = names ∧
    ∀ entry ∈ outputs, ∃ bound, block.get? entry.1 = some bound ∧
      Resumed more.oracle (base.visible branch) exact depth bound entry.2 ∧
      ∀ term ∈ entry.2, term.Loose base branch

theorem Arena.Branched.preserved
    (branched : base.Branched more exact depth branch names arena fresh)
    (preserves : arena.Preserves later) :
    base.Branched more exact depth branch names later fresh := by
  obtain ⟨block, outputs, live, copy, rest⟩ := branched
  exact ⟨block, outputs, live, preserves.live copy, rest⟩

/-- A declared output of the copy is what was left of the output of the branch, and
no name in it is bound. -/
theorem Arena.Branched.output {name : String}
    (branched : base.Branched more exact depth branch names arena fresh)
    (preserves : base.Preserves arena)
    (safe : base.Safe branch) (declared : name ∈ names) :
    ∃ bound residual, base.getLocal branch name = .ok (some bound) ∧
      arena.getLocal fresh name = .ok (some residual) ∧
      Resumed more.oracle (base.visible branch) exact depth bound residual ∧
      ∀ used ∈ Term.namesOfAll residual, base.visible branch used = none ∧
        arena.lookup fresh used = .ok none := by
  obtain ⟨block, outputs, live, copy, rfl, entries⟩ := branched
  obtain ⟨residual, here⟩ := @Block.bound_rebind block _ _ (.inl declared)
  have among : (name, residual) ∈ outputs :=
    (Block.get?_rebind here).resolve_right fun absent => absent.1 declared
  obtain ⟨bound, stored, resumed, loose⟩ := entries _ among
  have local_ {arena : Arena} {slot : BlockId} {block : Block} {value : Compound}
      (live : arena.Live slot block) (found : block.get? name = some value) :
      arena.getLocal slot name = .ok (some value) := by
    rw [Arena.getLocal, get_ok live.1, Except.map, found]
  refine ⟨bound, residual, local_ live stored, local_ copy here, resumed,
    fun used inside => ?_⟩
  obtain ⟨term, member, mentioned⟩ := Term.mem_namesOfAll_iff.mp inside
  have read := (loose term member).unbound used mentioned
  refine ⟨visible_of_lookup read,
    preserves.lookup_copy safe live copy.1 (fun output keyed => ?_) read⟩
  obtain ⟨entry, entered, rfl⟩ := List.mem_map.mp keyed
  obtain ⟨bound, stored, _⟩ := entries entry entered
  exact ⟨bound, stored⟩

/-- What is bound in a safe slot is what its name stands for as seen from there. -/
theorem Arena.visible_of_getLocal {name : String} {bound : Compound}
    (read : base.getLocal branch name = .ok (some bound)) :
    base.visible branch name = some bound := by
  cases stored : base.block? branch with
  | none => simp [Arena.getLocal, Arena.get, stored, Except.map] at read
  | some block =>
      have found : block.get? name = some bound := by
        simpa [Arena.getLocal, get_ok stored, Except.map] using read
      exact visible_of_lookup (lookup_ok_iff.mpr ⟨_, .here stored found⟩)

theorem Arena.Preserves.getLocal (preserves : base.Preserves arena)
    (safe : base.Safe branch) (name : String) :
    arena.getLocal branch name = base.getLocal branch name := by
  obtain ⟨block, live⟩ := safe.live
  rw [Arena.getLocal, Arena.getLocal, get_ok live.1, get_ok (preserves.live live).1]

/-- Blocks made since then are not seen from the branch. -/
theorem Arena.Preserves.sees (preserves : base.Preserves pass.arena)
    (safe : base.Safe branch) (resolving : pass.resolving = []) :
    (PassM.enter branch pass).Sees pass.source (base.visible branch) where
  source := rfl
  resolving := resolving
  reads read := (visible_of_lookup (preserves.lookup_of_safe safe read)).symm

/-- An output of a branch is reduced in its scope, and nothing changes. -/
theorem Store.Within.reduceOutput (within : known.Within more)
    (preserves : base.Preserves pass.arena) (safe : base.Safe branch)
    (scope : PlainScope (base.visible branch)) (source : pass.source = known)
    (resolving : pass.resolving = []) {name : String} {value : Compound}
    (ran : Reduction.reduceOutput (Reduction.reduce depth) cond branch name pass =
      (.ok value, final)) :
    final = pass ∧ ∃ bound, base.getLocal branch name = .ok (some bound) ∧
      Resumed more.oracle (base.visible branch) (known = more) depth bound value ∧
      ∀ term ∈ value, term.Loose base branch := by
  obtain ⟨bound, after, read, inner, rfl⟩ := Reduction.reduceOutput_ok_iff.mp ran
  rw [preserves.getLocal safe] at read
  have sees := source ▸ preserves.sees safe resolving
  have plain := scope.plain (Arena.visible_of_getLocal read)
  obtain ⟨flat, parentless, same⟩ := base.exists_flat branch
  rw [← same] at scope sees plain ⊢
  obtain ⟨rfl, resumed, loose⟩ := within.leaves parentless scope plain sees inner
  exact ⟨rfl, bound, read, resumed, fun term inside =>
    ⟨(loose term inside).foreign, fun used mentioned =>
      preserves.lookup_of_safe safe ((loose term inside).unbound used mentioned)⟩⟩

theorem Store.Within.reduceOutputs (within : known.Within more)
    (preserves : base.Preserves pass.arena) (safe : base.Safe branch)
    (scope : PlainScope (base.visible branch)) (source : pass.source = known)
    (resolving : pass.resolving = []) {results : Bindings}
    (ran : Reduction.reduceOutputs (Reduction.reduce depth) cond branch names pass =
      (.ok results, final)) : final = pass ∧ results.keys = names ∧
      ∀ entry ∈ results, ∃ bound, base.getLocal branch entry.1 = .ok (some bound) ∧
        Resumed more.oracle (base.visible branch) (known = more) depth bound entry.2 ∧
        ∀ term ∈ entry.2, term.Loose base branch := by
  induction names generalizing results final with
  | nil =>
      obtain ⟨rfl, rfl⟩ : [] = results ∧
          pass = final := by simpa [Reduction.reduceOutputs] using ran
      exact ⟨rfl, rfl, by simp⟩
  | cons name rest ih =>
      unfold Reduction.reduceOutputs at ran
      obtain ⟨value, between, first, ran⟩ := PassM.bind_ok_iff.mp ran
      obtain ⟨others, last, second, ran⟩ := PassM.bind_ok_iff.mp ran
      obtain ⟨rfl, rfl⟩ : (name, value) :: others = results ∧
          last = final := by simpa using ran
      obtain ⟨rfl, here⟩ :=
        within.reduceOutput preserves safe scope source resolving first
      obtain ⟨rfl, rfl, later⟩ := ih second
      exact ⟨rfl, rfl, List.forall_mem_cons.mpr ⟨here, later⟩⟩

/-- A branch is copied, with its declared outputs reduced; it stays as it is itself. -/
theorem Store.Within.residualBranch (within : known.Within more)
    (preserves : base.Preserves pass.arena) (sound : pass.arena.Sound)
    (safe : base.Safe branch) (scope : PlainScope (base.visible branch))
    (source : pass.source = known) (resolving : pass.resolving = [])
    (ran : Reduction.residualBranch (Reduction.reduce depth) cond branch pass =
      (.ok fresh, final)) :
    ∃ arena, final = { pass with arena } ∧ pass.arena.Preserves arena ∧ arena.Sound ∧
      base.Branched more (known = more) depth branch cond.prototype.outputs arena fresh := by
  obtain ⟨results, reached, cloned, arena, reduced, cloning, binding, rfl⟩ :=
    Reduction.residualBranch_ok_iff.mp ran
  obtain ⟨rfl, keys, entries⟩ :=
    within.reduceOutputs preserves safe scope source resolving reduced
  obtain ⟨block, live⟩ := safe.live
  obtain ⟨same, stored, extends_⟩ := sound.cloneBlock cloning
  obtain rfl := Option.some.inj ((preserves.live live).1.symm.trans stored)
  obtain ⟨last, bound, whole⟩ := extends_.bindAll results
  obtain rfl := Except.ok.inj (binding.symm.trans bound)
  refine ⟨arena, rfl, whole.preserving, whole.sound, block, results, live, whole.live,
    keys, fun entry member => ?_⟩
  obtain ⟨bound, read, rest⟩ := entries entry member
  exact ⟨bound, by simpa [Arena.getLocal, Arena.get_ok live.1, Except.map] using read, rest⟩

/-- In its copy an output comes to what it comes to in the branch once more is known. -/
theorem Arena.Branched.reduceOutput
    (branched : base.Branched more exact depth branch names arena fresh)
    (preserves : base.Preserves arena) (safe : base.Safe branch)
    (scope : PlainScope (base.visible branch)) {output : String}
    (declared : output ∈ names) {result : Compound} (here : pass.arena = base)
    (source : pass.source = more) (resolving : pass.resolving = [])
    (ran : Reduction.reduceOutput (Reduction.reduce depth) cond branch output pass =
      (.ok result, final)) {copy : Cond} {second : Pass Store}
    (there : second.arena = arena) (sourceToo : second.source = more)
    (resolvingToo : second.resolving = []) :
    Reduction.reduceOutput (Reduction.reduce depth) copy fresh output second =
      (.ok result, second) := by
  obtain ⟨bound, residual, read, readCopy, resumed, unbound⟩ :=
    branched.output preserves safe declared
  obtain ⟨_, same, again, exactly, _⟩ :=
    (Store.Within.refl more).reduceOutput (here ▸ Preserves.refl base) safe scope
      source resolving ran
  obtain rfl : bound = same := Option.some.inj (Except.ok.inj (read.symm.trans again))
  have valued := resumed.same (exactly.value rfl)
  have plain := Term.areAllPlain_iff.mpr resumed.plain
  obtain ⟨flat, parentless, sees⟩ := base.exists_flat branch
  rw [← sees] at scope valued plain unbound
  refine Reduction.reduceOutput_ok_iff.mpr
    ⟨residual, PassM.enter fresh second, there ▸ readCopy, ?_, rfl⟩
  refine Store.reduce_residual parentless scope plain valued
    (fun name member => ?_) sourceToo resolvingToo
  exact ⟨(unbound name member).1, there ▸ (unbound name member).2⟩

end Branches

section Delaying

variable {known more : Store} {exact : Prop} {depth : Nat} {arena later : Arena}
  {root : BlockId} {cond residual : Cond} {result : Compound} {after : Pass Store}
  {consumer : ConsumerId} {query : QueryId}

theorem Prototype.mem_of_output? {prototype : Prototype} {channel : Nat} {output : String}
    (offered : prototype.output? channel = some output) : output ∈ prototype.outputs := by
  cases channel with
  | zero => simp [output?] at offered
  | succ index => exact List.mem_of_getElem? offered

theorem Cond.toTerm_injective : Function.Injective Cond.toTerm := by
  rintro ⟨⟩ ⟨⟩ same
  simpa [toTerm] using same

/-- Which branch is taken depends on the condition only. -/
theorem Reduction.decide?_cases {condition : Compound} {branch : BlockId}
    (decided : decide? cond condition = some branch) (copy : Cond) :
    branch = cond.thenBlock ∧ decide? copy condition = some copy.thenBlock ∨
      branch = cond.elseBlock ∧ decide? copy condition = some copy.elseBlock := by
  unfold decide? at decided ⊢
  split at decided
  next empty => exact .inr ⟨(Option.some.inj decided).symm, if_pos empty⟩
  next filled =>
    split at decided
    next normal =>
        exact .inl ⟨(Option.some.inj decided).symm, by rw [if_neg filled, if_pos normal]⟩
    next => simp at decided

/-- A conditional that was left of another: its condition was reduced, and its branches
are copies of those of the other one. -/
structure Cond.LeftOf (residual cond : Cond) (more : Store) (exact : Prop) (depth : Nat)
    (arena : Arena) (root : BlockId) (after : Arena) : Prop where
  prototype : residual.prototype = cond.prototype
  channel : residual.channel = cond.channel
  preserves : arena.Preserves after
  condition :
    Resumed more.oracle (arena.visible root) exact depth cond.condition residual.condition
  loose : ∀ term ∈ residual.condition, term.Loose arena root
  thenBlock :
    arena.Branched more exact depth cond.thenBlock cond.prototype.outputs after
      residual.thenBlock
  elseBlock :
    arena.Branched more exact depth cond.elseBlock cond.prototype.outputs after
      residual.elseBlock

/-- The condition of a conditional is reduced, and nothing changes. -/
theorem Store.Within.reduceCondition (within : known.Within more)
    (scope : PlainScope (arena.visible root)) {compound value : Compound}
    (plain : Term.AreAllPlain (arena.visible root) compound)
    (ran : Reduction.reduce depth compound (Pass.start consumer query known arena root) =
      (.ok value, after)) : after = Pass.start consumer query known arena root ∧
      Resumed more.oracle (arena.visible root) (known = more) depth compound value ∧
      ∀ term ∈ value, term.Loose arena root := by
  obtain ⟨flat, parentless, same⟩ := arena.exists_flat root
  have sees : (Pass.start consumer query known arena root).Sees known flat.get? :=
    ⟨rfl, rfl, fun read => same ▸ (Arena.visible_of_lookup read).symm⟩
  rw [← same] at scope plain ⊢
  exact within.leaves parentless scope plain sees ran

/-- A pass that leaves a conditional could not decide it. -/
theorem Store.Within.leaves_cond (within : known.Within more)
    (sound : arena.Sound) (safeThen : arena.Safe cond.thenBlock)
    (safeElse : arena.Safe cond.elseBlock) (scope : PlainScope (arena.visible root))
    (thenScope : PlainScope (arena.visible cond.thenBlock))
    (elseScope : PlainScope (arena.visible cond.elseBlock))
    (plain : Term.AreAllPlain (arena.visible root) cond.condition)
    (ran : Reduction.reduceCond (Reduction.reduce depth) cond
      (Pass.start consumer query known arena root) = (.ok [residual.toTerm], after)) :
    residual.LeftOf cond more (known = more) depth arena root after.arena := by
  obtain ⟨condition, reached, output, ranFirst, _, outcome⟩ :=
    Reduction.reduceCond_ok_iff.mp ran
  obtain ⟨rfl, resumed, loose⟩ := within.reduceCondition scope plain ranFirst
  have refl := Arena.Preserves.refl arena
  obtain ⟨branch, chosen, ran⟩ |
      ⟨_, thenBlock, elseBlock, between, ranThen, ranElse, leaves⟩ := outcome
  · -- what a branch comes to is plain, so it is no conditional
    have safe : arena.Safe branch ∧ PlainScope (arena.visible branch) :=
      (Reduction.decide?_cases chosen cond).elim (·.1 ▸ ⟨safeThen, thenScope⟩)
        (·.1 ▸ ⟨safeElse, elseScope⟩)
    obtain ⟨_, _, _, output, _⟩ := within.reduceOutput refl safe.1 safe.2 rfl rfl ran
    exact (output.plain _ List.mem_cons_self).elim
  · obtain rfl := Cond.toTerm_injective (List.singleton_inj.mp leaves)
    obtain ⟨middle, rfl, preservesThen, soundThen, branchedThen⟩ :=
      within.residualBranch refl sound safeThen thenScope rfl rfl ranThen
    obtain ⟨last, rfl, preservesElse, _, branchedElse⟩ :=
      within.residualBranch preservesThen soundThen safeElse elseScope rfl rfl ranElse
    exact ⟨rfl, rfl, preservesThen.trans preservesElse, resumed, loose,
      branchedThen.preserved preservesElse, branchedElse⟩

/-- What was left of a condition comes to what the condition comes to. -/
theorem Cond.LeftOf.reduce_condition
    (leftOf : residual.LeftOf cond more exact depth arena root later)
    (safe : arena.Safe root)
    (scope : PlainScope (arena.visible root)) {decisive : Compound}
    (valued : more.oracle.eval (arena.visible root) depth cond.condition = some decisive) :
    Reduction.reduce depth residual.condition (Pass.start consumer query more later root) =
      (.ok decisive, Pass.start consumer query more later root) := by
  have unbound : ∀ name ∈ Term.namesOfAll residual.condition,
      arena.visible root name = none ∧ later.lookup root name = .ok none := by
    intro name member
    obtain ⟨term, inside, mentioned⟩ := Term.mem_namesOfAll_iff.mp member
    have read := (leftOf.loose term inside).unbound name mentioned
    exact ⟨Arena.visible_of_lookup read, leftOf.preserves.lookup safe read⟩
  have valued := leftOf.condition.same valued
  have plain := Term.areAllPlain_iff.mpr leftOf.condition.plain
  obtain ⟨flat, parentless, same⟩ := arena.exists_flat root
  rw [← same] at scope valued plain unbound
  exact Store.reduce_residual parentless scope plain valued unbound rfl rfl

/-- Delaying a conditional does not change its value.  Let no block id dangle, and let the
condition be plain, and everything that can be seen from the scope and from the branches.
If a pass leaves a conditional, and a pass with a larger store would have decided the
original one, then with that store what was left comes to exactly the same. -/
theorem Store.reduce_delayed (within : known.Within more)
    (closed : Context.Closed { arena, root, targets := [[cond.toTerm]] })
    (scope : PlainScope (arena.visible root))
    (thenScope : PlainScope (arena.visible cond.thenBlock))
    (elseScope : PlainScope (arena.visible cond.elseBlock))
    (plain : Term.AreAllPlain (arena.visible root) cond.condition)
    (left : Reduction.reduce depth [cond.toTerm]
      (Pass.start consumer query known arena root) = (.ok [residual.toTerm], after))
    (atOnce : (Reduction.reduce depth [cond.toTerm]
      (Pass.start consumer query more arena root)).1 = .ok result)
    (decided : ∀ other : Cond, result ≠ [other.toTerm]) :
    (Reduction.reduce depth [residual.toTerm]
      (Pass.start consumer query more after.arena root)).1 = .ok result := by
  obtain ⟨safe, targets⟩ := Context.intact_iff.mp closed.intact
  obtain ⟨_, safeThen, safeElse⟩ := Arena.covers_cond.mp (targets _ List.mem_cons_self)
  cases depth with
  | zero => simp [Reduction.reduce, PassM.halt] at left
  | succ depth =>
  rw [Reduction.reduce_cond] at left atOnce ⊢
  have leftOf :=
    within.leaves_cond closed.free safeThen safeElse scope thenScope elseScope plain left
  obtain ⟨decisive, reached, output, ranCondition, offered, outcome⟩ :=
    Reduction.reduceCond_ok_iff.mp (Prod.ext atOnce rfl)
  obtain ⟨rfl, exactly, _⟩ :=
    (Store.Within.refl more).reduceCondition scope plain ranCondition
  obtain ⟨branch, chosen, ran⟩ | ⟨_, _, _, _, _, _, leaves⟩ := outcome
  · have declared := Prototype.mem_of_output? offered
    have conditionAgain : Reduction.reduce depth residual.condition
        (Pass.start consumer query more after.arena root) =
        (.ok decisive, Pass.start consumer query more after.arena root) :=
      leftOf.reduce_condition safe scope (exactly.value rfl)
    rw [← leftOf.prototype, ← leftOf.channel] at offered
    -- the residual is decided in the same way, for the copy of the branch that is chosen
    have taken (copy : BlockId) (same : Reduction.decide? residual decisive = some copy)
        (ran : Reduction.reduceOutput (Reduction.reduce depth) residual copy output
          (Pass.start consumer query more after.arena root) =
            (.ok result, Pass.start consumer query more after.arena root)) :
        (Reduction.reduceCond (Reduction.reduce depth) residual
          (Pass.start consumer query more after.arena root)).1 = .ok result :=
      congrArg Prod.fst (Reduction.reduceCond_ok_iff.mpr
        ⟨decisive, _, output, conditionAgain, offered, .inl ⟨copy, same, ran⟩⟩)
    obtain ⟨rfl, same⟩ | ⟨rfl, same⟩ := Reduction.decide?_cases chosen residual
    · exact taken _ same (leftOf.thenBlock.reduceOutput leftOf.preserves safeThen
        thenScope declared rfl rfl rfl ran rfl rfl rfl)
    · exact taken _ same (leftOf.elseBlock.reduceOutput leftOf.preserves safeElse
        elseScope declared rfl rfl rfl ran rfl rfl rfl)
  · exact absurd leaves (decided _)

end Delaying

namespace Store

/-- A choice whose branch puts a local binding before the output that decides it. -/
def announced : Term :=
  .ticket ⟨⟨List.replicate 32 0, Digest.length_zeros⟩, 1, "y"⟩

def announcing : Block :=
  { bindings := [("x", [.str "s"]), ("y", [.name "x", announced])] }

def declining : Block := { bindings := [("y", [.str "n"])] }

def choices : Arena where
  blocks := #[{}, announcing, declining]

def choice : Cond where
  condition := [announced]
  prototype := { params := [], outputs := ["y"] }
  channel := 1
  thenBlock := ⟨1⟩
  elseBlock := ⟨2⟩

/-- The choice once its branches are copied. -/
def choiceLeft : Cond :=
  { choice with thenBlock := ⟨3⟩, elseBlock := ⟨4⟩ }

theorem visible_choices {slot : BlockId} {block : Block}
    (stored : choices.block? slot = some block) (parentless : block.parent = none) :
    choices.visible slot = block.get? :=
  funext fun name => Arena.visible_of_lookup (Arena.lookup_root stored parentless name)

theorem plainScope_of_strs {block : Block}
    (strings : ∀ entry ∈ block.bindings, ∃ text, entry.2 = [.str text]) :
    PlainScope block.get? where
  plain := by
    intro name bound found
    obtain ⟨text, rfl⟩ := strings _ (OrderedMap.mem_of_get? found)
    exact ⟨trivial, trivial⟩
  acyclic := by
    intro name circle
    have nothing : ∀ outer inner, ¬Mentions block.get? outer inner := by
      rintro outer inner ⟨bound, found, inside⟩
      obtain ⟨text, rfl⟩ := strings _ (OrderedMap.mem_of_get? found)
      simp [Term.namesOfAll, Term.names] at inside
    cases circle with
    | single mentions => exact nothing _ _ mentions
    | tail _ mentions => exact nothing _ _ mentions

theorem plainScope_announcing : PlainScope announcing.get? where
  plain := by
    intro name bound found
    simp only [announcing, Block.get?, OrderedMap.get?] at found
    split at found
    · exact Option.some.inj found ▸ ⟨trivial, trivial⟩
    · split at found
      · exact Option.some.inj found ▸ ⟨trivial, trivial, trivial⟩
      · simp at found
  acyclic := by
    have only : ∀ outer inner, Mentions announcing.get? outer inner →
        outer = "y" ∧ inner = "x" := by
      rintro outer inner ⟨bound, found, inside⟩
      simp only [announcing, Block.get?, OrderedMap.get?] at found
      split at found
      · rw [← Option.some.inj found] at inside
        simp [Term.namesOfAll, Term.names] at inside
      · split at found
        next same =>
          rw [← Option.some.inj found] at inside
          exact ⟨same.symm, by simpa [Term.namesOfAll, Term.names, announced] using inside⟩
        next => simp at found
    intro name circle
    have ends : name = "y" ∧ name = "x" := by
      cases circle with
      | single mentions => exact only _ _ mentions
      | tail before mentions =>
          obtain ⟨rfl, rfl⟩ := only _ _ mentions
          cases before with
          | single mentions => exact absurd (only _ _ mentions).1 (by decide)
          | tail _ mentions => exact absurd (only _ _ mentions).2 (by decide)
    exact absurd (ends.1.symm.trans ends.2) (by decide)

/-- The output in the copy, reduced but for the placeholder, comes to the whole output. -/
theorem reduce_delayed_choice :
    ∃ after, Reduction.reduce 5 [choice.toTerm]
      (Pass.start ⟨1⟩ ⟨1⟩ (shared none) choices ⟨0⟩) = (.ok [choiceLeft.toTerm], after) ∧
      (Reduction.reduce 5 [choiceLeft.toTerm]
        (Pass.start ⟨1⟩ ⟨1⟩ (shared (some ["a"])) after.arena ⟨0⟩)).1 =
        .ok [.str "s", .str "a"] := by
  have closed :
      Context.Closed { arena := choices, root := ⟨0⟩, targets := [[choice.toTerm]] } :=
    Context.closed_of_whole rfl (by decide) (by decide) (by decide)
  have scopes {slot : BlockId} {block : Block}
      (stored : choices.block? slot = some block) (parentless : block.parent = none)
      (plain : PlainScope block.get?) : PlainScope (choices.visible slot) :=
    visible_choices stored parentless ▸ plain
  have first :
      (Reduction.reduce 5 [choice.toTerm] (Pass.start ⟨1⟩ ⟨1⟩ (shared none) choices ⟨0⟩)).1 =
        .ok [choiceLeft.toTerm] := by rfl
  obtain ⟨after, left⟩ : ∃ after, Reduction.reduce 5 [choice.toTerm]
      (Pass.start ⟨1⟩ ⟨1⟩ (shared none) choices ⟨0⟩) = (.ok [choiceLeft.toTerm], after) :=
    ⟨_, Prod.fst_eq_iff.mp first⟩
  refine ⟨after, left, reduce_delayed (within_shared (some ["a"])) closed ?_ ?_ ?_
    ⟨trivial, trivial⟩ left (by rfl) ?_⟩
  · exact @scopes ⟨0⟩ {} rfl rfl (plainScope_of_strs (by simp))
  · exact @scopes ⟨1⟩ announcing rfl rfl plainScope_announcing
  · exact @scopes ⟨2⟩ declining rfl rfl (plainScope_of_strs (by simp [declining]))
  · rintro ⟨⟩ same
    simp [Cond.toTerm] at same

end Store

end TicketFlow
