import TicketFlow.Proofs.Timing.Mirror
import TicketFlow.Proofs.Timing.Straying

namespace TicketFlow

/-! Runs with less known against runs with more known.

A run precedes another one if, whenever the other gives a value, it gives one
that is related, in a pass that mirrors the other; or it ends early for a reason
that is excused.  Sequences and scopes compose.
-/

variable {α β γ δ : Type} {known more : Store} {made : BlockId → Prop}
  {pairs wider : BlockId → BlockId → Prop} {excused : Halt → Prop}
  {early late : Pass Store}

/-- Whenever the late run gives a value, the early one gives one related to it, or ends
for an excused reason. -/
def Precedes (known more : Store) (made : BlockId → Prop)
    (pairs : BlockId → BlockId → Prop) (excused : Halt → Prop)
    (good : (BlockId → BlockId → Prop) → α → β → Prop)
    (early : Except Halt α × Pass Store) (late : Except Halt β × Pass Store) : Prop :=
  ∀ result, late.1 = .ok result →
    (∃ reason, early.1 = .error reason ∧ excused reason) ∨
      ∃ wider value, pairs ≤ wider ∧ early.1 = .ok value ∧
        early.2.Mirrors known more made wider late.2 ∧ good wider value result

namespace Precedes

open PassM

variable {good : (BlockId → BlockId → Prop) → α → β → Prop}
  {better : (BlockId → BlockId → Prop) → γ → δ → Prop} {action : PassM Store α}
  {actionLate : PassM Store β}

theorem of_ok {value : α} {result : β}
    (mirrors : early.Mirrors known more made pairs late)
    (fine : good pairs value result) :
    Precedes known more made pairs excused good (.ok value, early) (.ok result, late) := by
  intro other same
  obtain rfl := Except.ok.inj same
  exact .inr ⟨pairs, value, le_refl pairs, rfl, mirrors, fine⟩

/-- Nothing is promised where the late run gives no value. -/
theorem of_error {reason : Halt} {run : Except Halt α × Pass Store} :
    Precedes known more made pairs excused good run (.error reason, late) :=
  fun _ same => nomatch same

/-- Runs that go different ways, neither of which changes a block in use. -/
theorem of_follows {run : Except Halt α × Pass Store}
    {runLate : Except Halt β × Pass Store}
    (mirrors : early.Mirrors known more made pairs late)
    (left : early.Follows run.2) (right : late.Follows runLate.2)
    (fails : ∀ reason, run.1 = .error reason → excused reason)
    (fine : ∀ value result, run.1 = .ok value →
      runLate.1 = .ok result → good pairs value result) :
    Precedes known more made pairs excused good run runLate := by
  intro result same
  cases ended : run.1 with
  | error reason => exact .inl ⟨reason, rfl, fails reason ended⟩
  | ok value =>
      exact .inr ⟨pairs, value, le_refl pairs, rfl, mirrors.follows left right,
        fine value result ended same⟩

theorem mono {other : Halt → Prop} {fine : (BlockId → BlockId → Prop) → α → β → Prop}
    {run : Except Halt α × Pass Store} {runLate : Except Halt β × Pass Store}
    (precedes : Precedes known more made wider excused good run runLate)
    (within : pairs ≤ wider) (excuses : ∀ reason, excused reason → other reason)
    (implies : ∀ {pairs value result}, good pairs value result → fine pairs value result) :
    Precedes known more made pairs other fine run runLate := by
  intro result same
  rcases precedes result same with
      ⟨reason, ended, excuse⟩ | ⟨widest, value, above, ended, mirrors, related⟩
  · exact .inl ⟨reason, ended, excuses reason excuse⟩
  · exact .inr ⟨widest, value, within.trans above, ended, mirrors, implies related⟩

theorem widen {run : Except Halt α × Pass Store} {runLate : Except Halt β × Pass Store}
    (precedes : Precedes known more made wider excused good run runLate)
    (within : pairs ≤ wider) : Precedes known more made pairs excused good run runLate :=
  precedes.mono within (fun _ => id) id

theorem excuse {other : Halt → Prop} {run : Except Halt α × Pass Store}
    {runLate : Except Halt β × Pass Store}
    (precedes : Precedes known more made pairs excused good run runLate)
    (excuses : ∀ reason, excused reason → other reason) :
    Precedes known more made pairs other good run runLate :=
  precedes.mono (le_refl pairs) excuses id

/-- What comes after may rely on how it was reached. -/
theorem bind {next : α → PassM Store γ} {nextLate : β → PassM Store δ}
    (first : Precedes known more made pairs excused good (action early) (actionLate late))
    (second : ∀ {wider value result before after}, pairs ≤ wider →
      action early = (.ok value, before) →
      actionLate late = (.ok result, after) → before.Mirrors known more made wider after →
      good wider value result → Precedes known more made wider excused better
        (next value before) (nextLate result after)) :
    Precedes known more made pairs excused better ((action >>= next) early)
      ((actionLate >>= nextLate) late) := by
  rw [bind_run, bind_run]
  cases ranLate : actionLate late with
  | mk outcome after =>
      cases outcome with
      | error reason => exact of_error
      | ok result =>
          rw [ranLate] at first
          rcases first result rfl with
              ⟨reason, ended, excuse⟩ | ⟨wider, value, within, ended, mirrors, fine⟩
          · cases ran : action early with
            | mk outcome before =>
                obtain rfl : outcome = .error reason := by rw [← ended, ran]
                exact fun _ _ => .inl ⟨reason, rfl, excuse⟩
          · cases ran : action early with
            | mk outcome before =>
                obtain rfl : outcome = .ok value := by rw [← ended, ran]
                rw [ran] at mirrors
                exact (second within ran ranLate mirrors fine).widen within

theorem view {f : Pass Store → α} {g : Pass Store → β}
    {next : α → PassM Store γ} {nextLate : β → PassM Store δ}
    (continues : Precedes known more made pairs excused better
      (next (f early) early) (nextLate (g late) late)) :
    Precedes known more made pairs excused better ((PassM.view f >>= next) early)
      ((PassM.view g >>= nextLate) late) :=
  continues

theorem require {error errorLate : ReduceError} {option : Option α}
    {optionLate : Option β} {related : α → β → Prop} {next : α → PassM Store γ}
    {nextLate : β → PassM Store δ} (options : Option.Rel related option optionLate)
    (continues : ∀ {value result}, option = some value → related value result →
      Precedes known more made pairs excused better (next value early)
        (nextLate result late)) :
    Precedes known more made pairs excused better
      ((Reduction.require error option >>= next) early)
      ((Reduction.require errorLate optionLate >>= nextLate) late) := by
  cases options with
  | some here => exact continues rfl here
  | none => exact of_error

theorem require_same {error errorLate : ReduceError} {option optionLate : Option α}
    {next : α → PassM Store γ} {nextLate : α → PassM Store δ} (same : optionLate = option)
    (continues : ∀ {value}, option = some value →
      Precedes known more made pairs excused better (next value early) (nextLate value late)) :
    Precedes known more made pairs excused better
      ((Reduction.require error option >>= next) early)
      ((Reduction.require errorLate optionLate >>= nextLate) late) := by
  subst same
  cases optionLate with
  | some value => exact continues rfl
  | none => exact of_error

/-- A look-up that succeeds late succeeds early. -/
theorem inspect {look : Arena → Except Arena.Fault α}
    {lookLate : Arena → Except Arena.Fault β} {next : α → PassM Store γ}
    {nextLate : β → PassM Store δ}
    (continues : ∀ {result}, lookLate late.arena = .ok result →
      ∃ value, look early.arena = .ok value ∧ Precedes known more made pairs excused
      better (next value early) (nextLate result late)) :
    Precedes known more made pairs excused better ((PassM.inspect look >>= next) early)
      ((PassM.inspect lookLate >>= nextLate) late) := by
  cases found : lookLate late.arena with
  | error fault =>
      rw [bind_run (PassM.inspect lookLate), PassM.inspect, found]
      exact of_error
  | ok result =>
      obtain ⟨value, here, precedes⟩ := continues found
      rw [bind_run, bind_run, PassM.inspect, PassM.inspect, here, found]
      exact precedes

theorem inScope {slot other : BlockId}
    (inside : Precedes known more made pairs excused good
      (action (enter slot early)) (actionLate (enter other late))) :
    Precedes known more made pairs excused good (PassM.inScope slot action early)
      (PassM.inScope other actionLate late) := by
  intro result same
  rcases inside result same with
      ⟨reason, ended, excuse⟩ | ⟨wider, value, within, ended, mirrors, fine⟩
  · exact .inl ⟨reason, ended, excuse⟩
  · exact .inr ⟨wider, value, within, ended, mirrors.leave, fine⟩

theorem whileResolving {slot other : BlockId} {name : String} (paired : pairs slot other)
    (inside : Precedes known more made pairs excused good
      (action { early with resolving := (slot, name) :: early.resolving })
      (actionLate { late with resolving := (other, name) :: late.resolving })) :
    Precedes known more made pairs excused good
      (PassM.whileResolving (slot, name) action early)
      (PassM.whileResolving (other, name) actionLate late) := by
  intro result same
  rcases inside result same with
      ⟨reason, ended, excuse⟩ | ⟨wider, value, within, ended, mirrors, fine⟩
  · exact .inl ⟨reason, ended, excuse⟩
  · exact .inr ⟨wider, value, within, ended, mirrors.unmark (within _ _ paired) name, fine⟩

/-- Blocks that are made on both sides are paired. -/
theorem make {make makeLate : Arena → Except Arena.Fault (BlockId × Arena)}
    {bindings others : Bindings} (mirrors : early.Mirrors known more made pairs late)
    (arguments : Bindings.Foreshadows known.Waits pairs bindings others)
    (makes : ∀ {twin after}, makeLate late.arena = .ok (twin, after) →
      ∃ fresh before block found,
      make early.arena = .ok (fresh, before) ∧ early.arena.Extends before fresh block ∧
        late.arena.Extends after twin found ∧ block.Mirrors known.Waits pairs found) :
    Precedes known more made pairs excused (fun pairs fresh twin => pairs fresh twin)
      ((build make >>= fun fresh =>
        build (fun arena => (arena.bindAll fresh bindings).map ((), ·)) >>= fun _ =>
        pure fresh) early)
      ((build makeLate >>= fun twin =>
        build (fun arena => (arena.bindAll twin others).map ((), ·)) >>= fun _ =>
        pure twin) late) := by
  cases madeLate : makeLate late.arena with
  | error fault =>
      rw [bind_run (build makeLate), build, madeLate]
      exact of_error
  | ok result =>
      obtain ⟨twin, after⟩ := result
      obtain ⟨fresh, before, block, found, made, left, right, same⟩ := makes madeLate
      obtain ⟨leftFinal, bound, extended⟩ := left.bindAll bindings
      obtain ⟨rightFinal, boundLate, extendedLate⟩ := right.bindAll others
      rw [build_bound made bound, build_bound madeLate boundLate]
      have within := Arena.le_joined pairs fresh twin
      intro result is
      obtain rfl := Except.ok.inj is
      refine .inr ⟨_, fresh, within, rfl, ?_, .inr ⟨rfl, rfl⟩⟩
      exact
        { mirrors with
          arena := mirrors.arena.join extended extendedLate (same.rebind arguments)
          sound := extended.sound
          soundLate := extendedLate.sound
          root := within _ _ mirrors.root
          scopes := mirrors.scopes.imp within
          resolving := mirrors.resolving.imp fun _ _ keys => ⟨within _ _ keys.1, keys.2⟩ }

/-- Copies of paired blocks are paired. -/
theorem clone {slot other : BlockId} {bindings others : Bindings}
    (mirrors : early.Mirrors known more made pairs late) (paired : pairs slot other)
    (arguments : Bindings.Foreshadows known.Waits pairs bindings others) :
    Precedes known more made pairs excused (fun pairs fresh twin => pairs fresh twin)
      ((build (fun arena => arena.cloneBlock slot) >>= fun fresh =>
        build (fun arena => (arena.bindAll fresh bindings).map ((), ·)) >>= fun _ =>
        pure fresh) early)
      ((build (fun arena => arena.cloneBlock other) >>= fun twin =>
        build (fun arena => (arena.bindAll twin others).map ((), ·)) >>= fun _ =>
        pure twin) late) := by
  refine .make mirrors arguments fun {twin after} cloned => ?_
  obtain ⟨found, there, right⟩ := mirrors.soundLate.cloneBlock cloned
  obtain ⟨block, _, here, live, same⟩ := mirrors.arena.blocks paired
  obtain rfl := Option.some.inj (live.1.symm.trans there)
  refine ⟨_, _, block, _, ?_, mirrors.sound.insert block, right,
    same.imp (fun _ => And.right) (le_refl pairs)⟩
  rw [Arena.cloneBlock, Arena.get_ok here.1]
  rfl

/-- One element early against any number late, and the others after them. -/
theorem join {f : γ → PassM Store Compound} {g : δ → PassM Store Compound}
    {value : γ} {rest : List γ} (part : List δ) {others : List δ}
    {fails : γ → Pass Store → Halt → Prop}
    (head : Precedes known more made pairs (fails value early)
      (Compound.Foreshadows known.Waits) (f value early) (joinMap g part late))
    (tail : ∀ {wider before after}, pairs ≤ wider →
      before.Mirrors known more made wider after →
      Precedes known more made wider (fun reason => ∃ found reached, Meets f rest before
        found reached ∧ fails found reached reason) (Compound.Foreshadows known.Waits)
        (joinMap f rest before) (joinMap g others after)) :
    Precedes known more made pairs
      (fun reason => ∃ found reached, Meets f (value :: rest) early found reached ∧
        fails found reached reason) (Compound.Foreshadows known.Waits)
      (joinMap f (value :: rest) early) (joinMap g (part ++ others) late) := by
  rw [joinMap_append]
  refine (head.excuse fun reason failed => ⟨value, early, .here, failed⟩).bind
    fun within ran _ mirrors first => ?_
  refine ((tail within mirrors).excuse fun reason ⟨found, reached, meets, failed⟩ =>
    ⟨found, reached, .later ran meets, failed⟩).bind fun further _ _ mirrors second => ?_
  exact of_ok mirrors ((first.mono further).append second)

end Precedes

end TicketFlow
