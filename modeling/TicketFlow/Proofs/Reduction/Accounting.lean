import TicketFlow.Proofs.Arena.Placeholders
import TicketFlow.Proofs.Reduction.Action
import TicketFlow.Reduction.Reduce

namespace TicketFlow

/-! The placeholders of a pass, and the rules to account for them.

The source of the tickets knows every placeholder that stands in a term or in
the arena.  During a pass it only learns of more of them, the stored outputs
stay as they are, and so do the live blocks.
-/

variable {σ : Type} [TicketSource σ]

/-- A source whose outputs are strings, and which knows every placeholder
that it has given out. -/
structure Accounts (consumer : ConsumerId) (query : QueryId) (sound : σ → Prop)
    (known : σ → Placeholder → Prop) : Prop where
  request :
    ∀ {source after : σ} {invocation : Invocation}
    {output : String} {placeholder : Placeholder}, sound source →
    invocation.lambda.prototype.output? invocation.channel = some output →
    TicketSource.request source consumer query invocation.toApply =
      .ok (placeholder, after) → sound after ∧ known after placeholder ∧
    (∀ other, known source other → known after other) ∧
    ∀ id channel,
      TicketSource.output? after id channel = TicketSource.output? source id channel
  read : ∀ {source after : σ} {asked : TicketId} {of : Nat}, sound source →
    (TicketSource.read source asked of).2 = after →
    sound after ∧ (∀ other, known source other → known after other) ∧
      ∀ id channel,
        TicketSource.output? after id channel = TicketSource.output? source id channel
  literal :
    ∀ {source : σ} {id : TicketId} {channel : Nat} {value : Compound}, sound source →
    TicketSource.output? source id channel = some value →
    ∀ term ∈ value, ∃ text, term = .str text

section Predicates

/-- A pass whose arena is sound and binds known placeholders only. -/
structure Pass.Fit (consumer : ConsumerId) (query : QueryId) (sound : σ → Prop)
    (known : σ → Placeholder → Prop) (pass : Pass σ) : Prop where
  consumer : pass.consumer = consumer
  query : pass.query = query
  sound : sound pass.source
  arena : pass.arena.Sound
  bound :
    ∀ {slot block term placeholder}, pass.arena.block? slot = some block →
    BoundIn block.bindings term → term.Occurs placeholder → known pass.source placeholder

/-- Known placeholders stay known, stored outputs are as before, and live
blocks are untouched. -/
structure Pass.Grows (known : σ → Placeholder → Prop) (before after : Pass σ) : Prop where
  known :
    ∀ {placeholder}, known before.source placeholder → known after.source placeholder
  outputs :
    ∀ id channel, TicketSource.output? after.source id channel =
    TicketSource.output? before.source id channel
  live : ∀ {slot block}, before.arena.Live slot block → after.arena.Live slot block

def Pass.Advances (consumer : ConsumerId) (query : QueryId) (sound : σ → Prop)
    (known : σ → Placeholder → Prop) (before after : Pass σ) : Prop :=
  before.Grows known after ∧
    (before.Fit consumer query sound known → after.Fit consumer query sound known)

/-- Every placeholder in the terms is known. -/
def Pass.Owns (known : σ → Placeholder → Prop) (terms : Compound)
    (pass : Pass σ) : Prop :=
  ∀ term ∈ terms, ∀ placeholder, term.Occurs placeholder → known pass.source placeholder

/-- There is no output for the placeholder. -/
def Pass.Waits (pass : Pass σ) (placeholder : Placeholder) : Prop :=
  TicketSource.output? pass.source placeholder.ticket placeholder.channel = none

/-- Every placeholder in the term is known, and those that a pass can see in it wait. -/
structure Pass.Leaves (known : σ → Placeholder → Prop) (pass : Pass σ)
    (term : Term) : Prop where
  known : ∀ placeholder, term.Occurs placeholder → known pass.source placeholder
  settled : pass.arena.Settled pass.Waits term

variable {consumer : ConsumerId} {query : QueryId} {sound : σ → Prop}
  {known : σ → Placeholder → Prop} {before after pass : Pass σ}
  {terms : Compound} {term : Term}

theorem Pass.Grows.refl (pass : Pass σ) : pass.Grows known pass :=
  ⟨id, fun _ _ => rfl, id⟩

theorem Pass.Grows.trans {first second third : Pass σ} (left : first.Grows known second)
    (right : second.Grows known third) : first.Grows known third where
  known given := right.known (left.known given)
  outputs id channel := (right.outputs id channel).trans (left.outputs id channel)
  live given := right.live (left.live given)

theorem Pass.Advances.refl (pass : Pass σ) :
    pass.Advances consumer query sound known pass :=
  ⟨.refl pass, id⟩

theorem Pass.Owns.grows (owns : before.Owns known terms)
    (grows : before.Grows known after) : after.Owns known terms :=
  fun term member placeholder occurs => grows.known (owns term member placeholder occurs)

theorem Pass.Leaves.grows (leaves : before.Leaves known term)
    (grows : before.Grows known after) : after.Leaves known term where
  known placeholder occurs := grows.known (leaves.known placeholder occurs)
  settled := leaves.settled.preserved grows.live fun waits => (grows.outputs _ _).trans waits

/-- Growing takes nothing away from it. -/
def Pass.Lasting (known : σ → Placeholder → Prop) (holds : Pass σ → Prop) : Prop :=
  ∀ {before after : Pass σ}, before.Grows known after → holds before → holds after

theorem Pass.Lasting.and {holds more : Pass σ → Prop}
    (left : Pass.Lasting known holds) (right : Pass.Lasting known more) :
    Pass.Lasting known fun pass => holds pass ∧ more pass :=
  fun grows given => ⟨left grows given.1, right grows given.2⟩

theorem Pass.lasting_owns : Pass.Lasting known (Pass.Owns known terms) :=
  fun grows owns => owns.grows grows

theorem Pass.lasting_leaves :
    Pass.Lasting known fun pass => ∀ term ∈ terms, pass.Leaves known term :=
  fun grows leaves term member => (leaves term member).grows grows

theorem Pass.steady_fit {holds : Pass σ → Prop} (lasting : Pass.Lasting known holds) :
    PassM.Steady (Pass.Advances consumer query sound known)
      (fun pass => pass.Fit consumer query sound known ∧ holds pass) where
  refl := .refl
  trans left right := ⟨left.1.trans right.1, fun fit => right.2 (left.2 fit)⟩
  kept given advances := ⟨advances.2 given.1, lasting advances.1 given.2⟩

end Predicates

/-- From a fit pass with `holds` the action advances, and its value is good. -/
abbrev PassM.Settles {α : Type} (consumer : ConsumerId) (query : QueryId)
    (sound : σ → Prop) (known : σ → Placeholder → Prop) (holds : Pass σ → Prop)
    (good : Pass σ → α → Prop) (action : PassM σ α) : Prop :=
  PassM.Ensures (Pass.Advances consumer query sound known)
    (fun pass => pass.Fit consumer query sound known ∧ holds pass) good False action

section Rules

variable {α β : Type} {consumer : ConsumerId} {query : QueryId} {sound : σ → Prop}
  {known : σ → Placeholder → Prop} {holds : Pass σ → Prop} {good : Pass σ → α → Prop}
  {better : Pass σ → β → Prop} {action : PassM σ α}

theorem PassM.settles_pure {value : α}
    (fine : ∀ pass, pass.Fit consumer query sound known → holds pass → good pass value) :
    PassM.Settles consumer query sound known holds good (pure value) := by
  refine fun pass given => ⟨.refl pass, fun result same => ?_, False.elim⟩
  obtain rfl := Except.ok.inj same
  exact fine pass given.1 given.2

theorem PassM.settles_halt {reason : Halt} :
    PassM.Settles consumer query sound known holds good (halt reason : PassM σ α) :=
  fun pass _ => ⟨.refl pass, fun value same => by simp [halt] at same, False.elim⟩

theorem PassM.settles_view {f : Pass σ → α}
    (fine : ∀ pass, pass.Fit consumer query sound known → holds pass → good pass (f pass)) :
    PassM.Settles consumer query sound known holds good (view f) := by
  refine fun pass given => ⟨.refl pass, fun result same => ?_, False.elim⟩
  obtain rfl := Except.ok.inj same
  exact fine pass given.1 given.2

theorem PassM.settles_inspect {f : Arena → Except Arena.Fault α}
    (fine : ∀ pass value, pass.Fit consumer query sound known →
      holds pass → f pass.arena = .ok value → good pass value) :
    PassM.Settles consumer query sound known holds good (inspect f) := by
  intro pass given
  unfold inspect
  cases read : f pass.arena with
  | error fault => exact ⟨.refl pass, fun value same => by simp at same, False.elim⟩
  | ok found =>
      refine ⟨.refl pass, fun value same => ?_, False.elim⟩
      obtain rfl := Except.ok.inj same
      exact fine pass found given.1 given.2 read

theorem PassM.Settles.bind {next : α → PassM σ β} (lasting : Pass.Lasting known holds)
    (first : PassM.Settles consumer query sound known holds good action)
    (second : ∀ value, PassM.Settles consumer query sound known
      (fun pass => holds pass ∧ good pass value) better (next value)) :
    PassM.Settles consumer query sound known holds better (action >>= next) :=
  PassM.Ensures.bind (Pass.steady_fit lasting) first fun value =>
    (second value).mono (fun _ given => ⟨given.1.1, given.1.2, given.2⟩) (fun _ _ => id) id

theorem PassM.Settles.weaken {fewer : Pass σ → Prop}
    (settles : PassM.Settles consumer query sound known fewer good action)
    (weaker : ∀ pass, pass.Fit consumer query sound known → holds pass → fewer pass) :
    PassM.Settles consumer query sound known holds good action :=
  settles.mono (fun pass given => ⟨given.1, weaker pass given.1 given.2⟩)
    (fun _ _ => id) id

/-- A block is made and bound anew; what comes after finds it as it was made. -/
theorem PassM.settles_make {make : Arena → Except Arena.Fault (BlockId × Arena)}
    {bindings : Bindings} {next : BlockId → PassM σ β}
    (lasting : Pass.Lasting known holds)
    (makes : ∀ (pass : Pass σ) fresh after, pass.Fit consumer query sound known →
      make pass.arena = .ok (fresh, after) →
      ∃ block : Block, pass.arena.Extends after fresh block ∧
        ∀ term, BoundIn block.bindings term →
          ∀ placeholder, term.Occurs placeholder → known pass.source placeholder)
    (owned : ∀ (pass : Pass σ), holds pass → ∀ term, BoundIn bindings term →
      ∀ placeholder, term.Occurs placeholder → known pass.source placeholder)
    (continues : ∀ fresh (block : Block), PassM.Settles consumer query sound known
      (fun pass => holds pass ∧ pass.arena.Live fresh (block.rebind bindings))
      better (next fresh)) :
    PassM.Settles consumer query sound known holds better
      (build make >>= fun fresh =>
        build (fun arena => (arena.bindAll fresh bindings).map ((), ·)) >>= fun _ =>
        next fresh) := by
  rintro pass ⟨fit, given⟩
  cases made : make pass.arena with
  | error fault =>
      have stays : build make pass = (.error (.fault fault), pass) := by
        simp [build, made]
      rw [bind_run, stays]
      exact ⟨.refl pass, fun value same => by simp at same, False.elim⟩
  | ok result =>
      obtain ⟨fresh, after⟩ := result
      obtain ⟨block, extends_, inBlock⟩ := makes pass fresh after fit made
      obtain ⟨final, rebound, whole⟩ := extends_.bindAll bindings
      have grows : pass.Grows known { pass with arena := final } :=
        ⟨id, fun _ _ => rfl, fun live => whole.preserves live⟩
      have stillFit :
          ({ pass with arena := final } : Pass σ).Fit consumer query sound known :=
        { consumer := fit.consumer
          query := fit.query
          sound := fit.sound
          arena := whole.sound
          bound := by
            intro slot found term placeholder stored bound occurs
            by_cases same : slot = fresh
            · subst same
              obtain rfl := Option.some.inj (stored.symm.trans whole.live.1)
              obtain ⟨entry, member, inside⟩ := bound
              rcases Block.mem_rebind member with new | old
              · exact owned pass given term ⟨entry, new, inside⟩ placeholder occurs
              · exact inBlock term ⟨entry, old, inside⟩ placeholder occurs
            · exact fit.bound ((whole.others slot same).symm.trans stored) bound occurs }
      obtain ⟨advances, fine, _⟩ := continues fresh block { pass with arena := final }
        ⟨stillFit, lasting grows given, whole.live⟩
      have first : build make pass = (.ok fresh, { pass with arena := after }) := by
        simp [build, made]
      have second : build (fun arena => (arena.bindAll fresh bindings).map ((), ·))
          { pass with arena := after } = (.ok (), { pass with arena := final }) := by
        simp [build, rebound, Except.map]
      simp only [bind_run, first, second]
      exact ⟨⟨grows.trans advances.1, fun _ => advances.2 stillFit⟩, fine, False.elim⟩

end Rules

end TicketFlow
