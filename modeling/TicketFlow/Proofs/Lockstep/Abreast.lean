import TicketFlow.Proofs.Lockstep.Renumber
import TicketFlow.Proofs.Reduction.Confinement
import TicketFlow.Proofs.Timing.Precedence

namespace TicketFlow

/-! Two runs that go abreast.

Both start from the same arena, each in a scope of its own that the other one does
not have.  From then on they make their blocks in turn, in slots that may differ:
the blocks are paired, and terms are the same up to the numbers of paired blocks.
No term names the scope in which a run started, so all that matters about it is
what is found from there.
-/

variable {σ : Type} {pairs wider : BlockId → BlockId → Prop}

/-- What two runs start from: an arena, and a scope on either side. -/
structure Fork where
  base : Arena
  scope : BlockId
  twin : BlockId

/-- Scopes are paired like blocks, and those of the start with each other. -/
abbrev Fork.scopes (fork : Fork) (pairs : BlockId → BlockId → Prop) :
    BlockId → BlockId → Prop :=
  Arena.Joined pairs fork.scope fork.twin

namespace Arena

variable {left right before after : Arena} {slot other fresh twin : BlockId}
  {block copy : Block} {name : String}

/-- Blocks are paired one to one, with the same in them up to numbers. -/
abbrev Tallies (left : Arena) (pairs : BlockId → BlockId → Prop) (right : Arena) : Prop :=
  left.Mirrors nothingWaits (fun _ => True) pairs right

/-- Two look-ups that find the same up to numbers, or do not come to an end. -/
inductive Found (pairs : BlockId → BlockId → Prop) :
    Except Fault (Option Compound) → Except Fault (Option Compound) → Prop where
  | ok {value result : Option Compound} :
      Option.Rel (Compound.Tallies pairs) value result →
      Found pairs (.ok value) (.ok result)
  | fault (here there : Fault) : Found pairs (.error here) (.error there)

theorem Found.mono {here there : Except Fault (Option Compound)}
    (found : Found pairs here there) (within : pairs ≤ wider) :
    Found wider here there := by
  cases found with
  | fault => exact .fault _ _
  | ok related =>
      cases related with
      | none => exact .ok .none
      | some tallies => exact .ok (.some (tallies.mono within))

/-- Only what is found counts. -/
theorem Found.congr {here there onward beyond : Except Fault (Option Compound)}
    (found : Found pairs here there)
    (left : ∀ value, onward = .ok value ↔ here = .ok value)
    (right : ∀ value, beyond = .ok value ↔ there = .ok value) :
    Found pairs onward beyond := by
  cases found with
  | ok related =>
      rw [(left _).mpr rfl, (right _).mpr rfl]
      exact .ok related
  | fault =>
      cases onward with
      | ok value => exact nomatch (left value).mp rfl
      | error fault =>
          cases beyond with
          | ok value => exact nomatch (right value).mp rfl
          | error other => exact .fault fault other

/-- From paired blocks the same is found up to numbers. -/
theorem Mirrors.found (tallies : left.Tallies pairs right) (paired : pairs slot other)
    (name : String) : Found pairs (left.lookup slot name) (right.lookup other name) := by
  cases read : right.lookup other name with
  | ok result =>
      cases result with
      | none =>
          rw [tallies.lookup_none paired read]
          exact .ok .none
      | some values =>
          obtain ⟨holder, value, finds, foreshadows⟩ := tallies.lookup_some paired read
          rw [finds.lookup]
          exact .ok (.some (foreshadows.imp (fun _ => And.right) (le_refl pairs)))
  | error fault =>
      cases here : left.lookup slot name with
      | error other => exact .fault _ _
      | ok value =>
          obtain ⟨path, finds⟩ := lookup_ok_iff.mp here
          obtain ⟨way, result, late⟩ := tallies.finds_late finds paired
          exact nomatch read.symm.trans (lookup_ok_iff.mpr ⟨way, late⟩)

theorem Mirrors.foundLocal (tallies : left.Tallies pairs right)
    (paired : pairs slot other) (name : String) :
    Found pairs (left.getLocal slot name) (right.getLocal other name) := by
  obtain ⟨value, result, here, there, related⟩ := tallies.getLocal paired name
  rw [here, there]
  refine .ok ?_
  cases related with
  | none => exact .none
  | some foreshadows => exact .some (foreshadows.imp (fun _ => And.right) (le_refl pairs))

/-- Both arenas have what the runs started from; whatever is paired
besides has been made since. -/
structure Abreast (fork : Fork) (pairs : BlockId → BlockId → Prop)
    (left right : Arena) : Prop where
  sound : left.Sound
  soundTwin : right.Sound
  tallies : left.Tallies pairs right
  kept : fork.base.Preserves left
  keptTwin : fork.base.Preserves right
  made : ∀ {slot other}, pairs slot other →
    (slot = other ∧ fork.base.Safe slot) ∨
      (∀ block, ¬fork.base.Live slot block) ∧ ∀ block, ¬fork.base.Live other block
  scope : left.Safe fork.scope
  twin : right.Safe fork.twin
  apart : ∀ {slot other}, pairs slot other → slot ≠ fork.scope ∧ other ≠ fork.twin
  found : ∀ name, Found pairs (left.lookup fork.scope name) (right.lookup fork.twin name)

variable {fork : Fork}

theorem Abreast.once (abreast : left.Abreast fork pairs right) :
    PairedOnce (fork.scopes pairs) where
  functional := by
    rintro slot first second (one | ⟨rfl, rfl⟩) (two | ⟨here, there⟩)
    · exact abreast.tallies.functional one two
    · exact absurd here (abreast.apart one).1
    · exact absurd rfl (abreast.apart two).1
    · exact there.symm
  injective := by
    rintro slot first second (one | ⟨rfl, rfl⟩) (two | ⟨here, there⟩)
    · exact abreast.tallies.injective one two
    · exact absurd there (abreast.apart one).2
    · exact absurd rfl (abreast.apart two).2
    · exact here.symm

/-- From paired scopes the same is found up to numbers. -/
theorem Abreast.lookup (abreast : left.Abreast fork pairs right)
    (paired : fork.scopes pairs slot other) (name : String) :
    Found pairs (left.lookup slot name) (right.lookup other name) := by
  rcases paired with paired | ⟨rfl, rfl⟩
  · exact abreast.tallies.found paired name
  · exact abreast.found name

/-- New blocks with the same in them are paired. -/
theorem Abreast.join (abreast : left.Abreast fork pairs right)
    (here : left.Extends before fresh block) (there : right.Extends after twin copy)
    (same : block.Mirrors nothingWaits pairs copy) :
    before.Abreast fork (Joined pairs fresh twin) after where
  sound := here.sound
  soundTwin := there.sound
  tallies := abreast.tallies.join here there same
  kept := abreast.kept.trans here.preserving
  keptTwin := abreast.keptTwin.trans there.preserving
  made := by
    rintro slot other (paired | ⟨rfl, rfl⟩)
    · exact abreast.made paired
    · exact .inr ⟨fun block live => here.unused block (abreast.kept.live live),
        fun block live => there.unused block (abreast.keptTwin.live live)⟩
  scope := here.preserving.safe abreast.scope
  twin := there.preserving.safe abreast.twin
  apart := by
    rintro slot other (paired | ⟨rfl, rfl⟩)
    · exact abreast.apart paired
    -- the scopes of the start were in use before the new blocks were made
    · obtain ⟨block, live⟩ := abreast.scope.live
      obtain ⟨copy, liveTwin⟩ := abreast.twin.live
      exact ⟨fun same => here.unused block (same ▸ live),
        fun same => there.unused copy (same ▸ liveTwin)⟩
  found name := ((abreast.found name).mono (le_joined pairs fresh twin)).congr
    (here.preserving.lookup_iff abreast.scope) (there.preserving.lookup_iff abreast.twin)

end Arena

/-- Two passes with the same source, in paired scopes of arenas that go abreast. -/
structure Pass.Abreast (fork : Fork) (sound : σ → Prop) (pairs : BlockId → BlockId → Prop)
    (left right : Pass σ) : Prop extends Pass.InStep (fork.scopes pairs) left right where
  consumer : right.consumer = left.consumer
  query : right.query = left.query
  source : right.source = left.source
  known : sound left.source
  arena : left.arena.Abreast fork pairs right.arena

section Passes

variable {fork : Fork} {sound : σ → Prop} {left right : Pass σ} {slot other : BlockId}

namespace Pass.Abreast

theorem enter (abreast : left.Abreast fork sound pairs right)
    (paired : fork.scopes pairs slot other) :
    (PassM.enter slot left).Abreast fork sound pairs (PassM.enter other right) :=
  { abreast with toInStep := abreast.toInStep.enter paired }

theorem leave (abreast : left.Abreast fork sound pairs right) :
    (PassM.leave left).Abreast fork sound pairs (PassM.leave right) :=
  { abreast with toInStep := abreast.toInStep.leave }

theorem mark (abreast : left.Abreast fork sound pairs right)
    (paired : fork.scopes pairs slot other) (name : String) :
    Pass.Abreast fork sound pairs { left with resolving := (slot, name) :: left.resolving }
      { right with resolving := (other, name) :: right.resolving } :=
  { abreast with toInStep := abreast.toInStep.mark paired name }

theorem unmark (abreast : left.Abreast fork sound pairs right)
    (paired : fork.scopes pairs slot other) (name : String) :
    Pass.Abreast fork sound pairs
      { left with resolving := left.resolving.filter fun key => key != (slot, name) }
      { right with resolving := right.resolving.filter fun key => key != (other, name) } :=
  { abreast with toInStep := abreast.toInStep.unmark abreast.arena.once paired name }

end Pass.Abreast

end Passes

/-- Both reasons are rejections, or faults, or the end of the depth given. -/
inductive Halt.Alike : Halt → Halt → Prop where
  | rejected (error other : ReduceError) : Halt.Alike (.rejected error) (.rejected other)
  | fault (fault other : Arena.Fault) : Halt.Alike (.fault fault) (.fault other)
  | exhausted : Halt.Alike .exhausted .exhausted

/-- Both runs come to related values in passes that go abreast, or both end early,
with the same source. -/
inductive Concurs {α β : Type} (fork : Fork)
    (sound : σ → Prop) (pairs : BlockId → BlockId → Prop)
    (good : (BlockId → BlockId → Prop) → α → β → Prop) :
    Except Halt α × Pass σ → Except Halt β × Pass σ → Prop where
  | ok {wider : BlockId → BlockId → Prop} {value : α} {result : β} {left right : Pass σ} :
      pairs ≤ wider → left.Abreast fork sound wider right → good wider value result →
      Concurs fork sound pairs good (.ok value, left) (.ok result, right)
  | error {reason other : Halt} {left right : Pass σ} :
      reason.Alike other → right.source = left.source →
      Concurs fork sound pairs good (.error reason, left) (.error other, right)

namespace Concurs

open PassM

variable {α β γ δ : Type} {fork : Fork} {sound : σ → Prop} {left right : Pass σ}
  {good : (BlockId → BlockId → Prop) → α → β → Prop}
    {better : (BlockId → BlockId → Prop) → γ → δ → Prop} {action : PassM σ α}
    {twin : PassM σ β}

theorem of_ok {value : α} {result : β}
    (abreast : left.Abreast fork sound pairs right) (fine : good pairs value result) :
    Concurs fork sound pairs good (.ok value, left) (.ok result, right) :=
  .ok (le_refl pairs) abreast fine

theorem of_reject (abreast : left.Abreast fork sound pairs right)
    (error other : ReduceError) :
    Concurs fork sound pairs good (PassM.reject error left) (PassM.reject other right) :=
  .error (.rejected error other) abreast.source

theorem mono {fine : (BlockId → BlockId → Prop) → α → β → Prop}
    {run : Except Halt α × Pass σ} {runTwin : Except Halt β × Pass σ}
    (concurs : Concurs fork sound wider good run runTwin) (within : pairs ≤ wider)
    (implies : ∀ {pairs value result}, good pairs value result → fine pairs value result) :
    Concurs fork sound pairs fine run runTwin := by
  cases concurs with
  | ok further abreast related =>
      exact .ok (within.trans further) abreast (implies related)
  | error alike source => exact .error alike source

theorem widen {run : Except Halt α × Pass σ} {runTwin : Except Halt β × Pass σ}
    (concurs : Concurs fork sound wider good run runTwin) (within : pairs ≤ wider) :
    Concurs fork sound pairs good run runTwin :=
  concurs.mono within id

theorem bind {next : α → PassM σ γ} {nextTwin : β → PassM σ δ}
    (first : Concurs fork sound pairs good (action left) (twin right))
    (second : ∀ {wider value result before after}, pairs ≤ wider →
      before.Abreast fork sound wider after → good wider value result →
      Concurs fork sound wider better (next value before) (nextTwin result after)) :
    Concurs fork sound pairs better ((action >>= next) left) ((twin >>= nextTwin) right) := by
  rw [bind_run, bind_run]
  generalize action left = run, twin right = runTwin at first
  cases first with
  | ok within abreast fine => exact (second within abreast fine).widen within
  | error alike source => exact .error alike source

theorem view {f : Pass σ → α} {g : Pass σ → β}
    {next : α → PassM σ γ} {nextTwin : β → PassM σ δ}
    (continues : Concurs fork sound pairs better
      (next (f left) left) (nextTwin (g right) right)) :
    Concurs fork sound pairs better ((PassM.view f >>= next) left)
      ((PassM.view g >>= nextTwin) right) :=
  continues

theorem require {error other : ReduceError} {option : Option α}
    {optionTwin : Option β} {related : α → β → Prop} {next : α → PassM σ γ}
    {nextTwin : β → PassM σ δ} (abreast : left.Abreast fork sound pairs right)
    (options : Option.Rel related option optionTwin)
    (continues : ∀ {value result}, related value result →
      Concurs fork sound pairs better (next value left) (nextTwin result right)) :
    Concurs fork sound pairs better ((Reduction.require error option >>= next) left)
      ((Reduction.require other optionTwin >>= nextTwin) right) := by
  cases options with
  | some here => exact continues here
  | none => exact of_reject abreast error other

theorem require_same {error other : ReduceError} (option : Option α)
    {next : α → PassM σ γ} {nextTwin : α → PassM σ δ}
    (abreast : left.Abreast fork sound pairs right)
    (continues : ∀ value,
      Concurs fork sound pairs better (next value left) (nextTwin value right)) :
    Concurs fork sound pairs better ((Reduction.require error option >>= next) left)
      ((Reduction.require other option >>= nextTwin) right) := by
  cases option with
  | some value => exact continues value
  | none => exact of_reject abreast error other

/-- A look-up on either side, with what is found up to numbers. -/
theorem inspect {look lookTwin : Arena → Except Arena.Fault (Option Compound)}
    {next : Option Compound → PassM σ γ} {nextTwin : Option Compound → PassM σ δ}
    (abreast : left.Abreast fork sound pairs right)
    (found : Arena.Found pairs (look left.arena) (lookTwin right.arena))
    (continues : ∀ {value result}, Option.Rel (Compound.Tallies pairs) value result →
      Concurs fork sound pairs better (next value left) (nextTwin result right)) :
    Concurs fork sound pairs better ((PassM.inspect look >>= next) left)
      ((PassM.inspect lookTwin >>= nextTwin) right) := by
  rw [bind_run, bind_run, PassM.inspect, PassM.inspect]
  generalize look left.arena = here, lookTwin right.arena = there at found
  cases found with
  | ok related => exact continues related
  | fault => exact .error (.fault _ _) abreast.source

theorem inScope {slot other : BlockId}
    (inside : Concurs fork sound pairs good
      (action (enter slot left)) (twin (enter other right))) :
    Concurs fork sound pairs good (PassM.inScope slot action left)
      (PassM.inScope other twin right) := by
  unfold PassM.inScope
  generalize action (enter slot left) = run, twin (enter other right) = runTwin at inside
  cases inside with
  | ok within abreast fine => exact .ok within abreast.leave fine
  | error alike source => exact .error alike source

theorem whileResolving {slot other : BlockId}
    {name : String} (paired : fork.scopes pairs slot other)
    (inside : Concurs fork sound pairs good
      (action { left with resolving := (slot, name) :: left.resolving })
      (twin { right with resolving := (other, name) :: right.resolving })) :
    Concurs fork sound pairs good (PassM.whileResolving (slot, name) action left)
      (PassM.whileResolving (other, name) twin right) := by
  unfold PassM.whileResolving
  generalize action { left with resolving := (slot, name) :: left.resolving } = run,
    twin { right with resolving := (other, name) :: right.resolving } = runTwin at inside
  cases inside with
  | ok within abreast fine =>
      exact .ok within (abreast.unmark (paired.imp_left (within _ _)) name) fine
  | error alike source => exact .error alike source

/-- Blocks that are made on both sides are paired. -/
theorem make {make makeTwin : Arena → Except Arena.Fault (BlockId × Arena)}
    {bindings others : Bindings} {fresh copy : BlockId} {before after : Arena}
    {block blockTwin : Block} (abreast : left.Abreast fork sound pairs right)
    (made : make left.arena = .ok (fresh, before))
    (madeTwin : makeTwin right.arena = .ok (copy, after))
    (here : left.arena.Extends before fresh block)
    (there : right.arena.Extends after copy blockTwin)
    (same : block.Mirrors nothingWaits pairs blockTwin)
    (arguments : bindings.Tallies pairs others) :
    Concurs fork sound pairs (fun pairs fresh copy => pairs fresh copy)
      ((build make >>= fun fresh =>
        build (fun arena => (arena.bindAll fresh bindings).map ((), ·)) >>= fun _ =>
        pure fresh) left)
      ((build makeTwin >>= fun copy =>
        build (fun arena => (arena.bindAll copy others).map ((), ·)) >>= fun _ =>
        pure copy) right) := by
  obtain ⟨leftFinal, bound, extended⟩ := here.bindAll bindings
  obtain ⟨rightFinal, boundTwin, extendedTwin⟩ := there.bindAll others
  rw [build_bound made bound, build_bound madeTwin boundTwin]
  have within := Arena.le_joined pairs fresh copy
  have inStep : left.InStep (fork.scopes (Arena.Joined pairs fresh copy)) right :=
    abreast.toInStep.mono fun _ _ => Or.imp_left (within _ _)
  refine .ok within ?_ (.inr ⟨rfl, rfl⟩)
  exact
    { abreast with
      toInStep := ⟨inStep.root, inStep.scopes, inStep.resolving⟩
      arena := abreast.arena.join extended extendedTwin (same.rebind arguments) }

/-- Copies of paired blocks are paired. -/
theorem clone {slot other : BlockId} {bindings others : Bindings}
    (abreast : left.Abreast fork sound pairs right) (paired : pairs slot other)
    (arguments : bindings.Tallies pairs others) :
    Concurs fork sound pairs (fun pairs fresh copy => pairs fresh copy)
      ((build (fun arena => arena.cloneBlock slot) >>= fun fresh =>
        build (fun arena => (arena.bindAll fresh bindings).map ((), ·)) >>= fun _ =>
        pure fresh) left)
      ((build (fun arena => arena.cloneBlock other) >>= fun copy =>
        build (fun arena => (arena.bindAll copy others).map ((), ·)) >>= fun _ =>
        pure copy) right) := by
  obtain ⟨block, copy, here, there, same⟩ := abreast.arena.tallies.blocks paired
  exact .make abreast (Arena.cloneBlock_of_block? here.1) (Arena.cloneBlock_of_block? there.1)
    (abreast.arena.sound.insert block) (abreast.arena.soundTwin.insert copy)
    (same.imp (fun _ => And.right) (le_refl pairs)) arguments

/-- So are the scopes of calls of lambdas with paired bodies. -/
theorem call {native nativeTwin : NativeLambda} {bindings others : Bindings}
    (abreast : left.Abreast fork sound pairs right)
    (paired : pairs native.body nativeTwin.body)
    (arguments : bindings.Tallies pairs others) :
    Concurs fork sound pairs (fun pairs fresh copy => pairs fresh copy)
      (Reduction.callScope native bindings left)
      (Reduction.callScope nativeTwin others right) := by
  obtain ⟨block, copy, here, there, _⟩ := abreast.arena.tallies.blocks paired
  exact .make abreast (Arena.alloc_of_block? here.1) (Arena.alloc_of_block? there.1)
    (abreast.arena.sound.insert _) (abreast.arena.soundTwin.insert _)
    ⟨.some paired, .nil⟩ arguments

/-- One element on either side, and the others after them. -/
theorem joinMap {ρ τ : Type} {f : ρ → PassM σ Compound} {g : τ → PassM σ Compound}
    {value : ρ} {other : τ} {rest : List ρ} {others : List τ}
    (head : Concurs fork sound pairs Compound.Tallies (f value left) (g other right))
    (tail : ∀ {wider before after}, pairs ≤ wider → before.Abreast fork sound wider after →
      Concurs fork sound wider Compound.Tallies (PassM.joinMap f rest before)
        (PassM.joinMap g others after)) :
    Concurs fork sound pairs Compound.Tallies (PassM.joinMap f (value :: rest) left)
      (PassM.joinMap g (other :: others) right) :=
  head.bind fun within abreast first => (tail within abreast).bind
    fun further abreast second => of_ok abreast ((first.mono further).append second)

end Concurs

end TicketFlow
