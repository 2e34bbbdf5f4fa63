import TicketFlow.Proofs.Reduction.Accounting
import TicketFlow.Proofs.Reduction.Expansion
import TicketFlow.Reduction.Context

namespace TicketFlow

/-! What a pass of reduction leaves is settled.

Whatever the terms are that a pass starts from, every placeholder that can be
seen in what it leaves is known and has no output.  Most of this does not
depend on the terms at all: what a name, a branch or a body is bound to is
reduced itself, and nothing else is taken over but a curry of several tasks.
-/

variable {σ : Type} [TicketSource σ] {consumer : ConsumerId} {query : QueryId}
  {sound : σ → Prop} {known : σ → Placeholder → Prop} {pass : Pass σ} {term : Term}
  {terms : Compound}

/-- Every term of a result is settled and has known placeholders only. -/
abbrev Pass.LeavesAll (known : σ → Placeholder → Prop) (pass : Pass σ)
    (result : Compound) : Prop :=
  ∀ term ∈ result, pass.Leaves known term

/-- What the reduction of known terms leaves is settled. -/
def Settling (consumer : ConsumerId) (query : QueryId) (sound : σ → Prop)
    (known : σ → Placeholder → Prop) (recurse : Compound → PassM σ Compound) : Prop :=
  ∀ terms, PassM.Settles consumer query sound known (Pass.Owns known terms)
    (Pass.LeavesAll known) (recurse terms)

section Terms

theorem Pass.leaves_str (value : String) : pass.Leaves known (.str value) :=
  ⟨fun _ occurs => (nomatch occurs), .str value⟩

theorem Pass.leaves_lambda (value : Lambda) : pass.Leaves known (.lambda value) :=
  ⟨fun _ occurs => (nomatch occurs), .lambda value⟩

theorem Pass.leaves_name (name : String) : pass.Leaves known (.name name) :=
  ⟨fun _ occurs => (nomatch occurs), .name name⟩

/-- An application is settled if everything in it is. -/
theorem Pass.leaves_apply {apply : Apply} (task : pass.LeavesAll known apply.task)
    (bindings : ∀ term, BoundIn apply.bindings term → pass.Leaves known term) :
    pass.Leaves known apply.toTerm where
  known placeholder occurs := by
    obtain ⟨term, inside | bound, occurs⟩ := Apply.occurs_iff.mp occurs
    · exact (task term inside).known placeholder occurs
    · exact (bindings term bound).known placeholder occurs
  settled := .apply (fun term inside => (task term inside).settled)
    fun term bound => (bindings term bound).settled

theorem Pass.leaves_curry {task : Compound}
    {bindings : Bindings} (tasks : pass.LeavesAll known task)
    (bound : ∀ term, BoundIn bindings term → pass.Leaves known term) :
    pass.Leaves known (.curry (some task) bindings) where
  known placeholder occurs := by
    cases occurs with
    | curryTask _ inside occurs => exact (tasks _ inside).known placeholder occurs
    | curryBinding _ inside occurs => exact (bound _ inside).known placeholder occurs
  settled := .curry (fun term inside => (tasks term inside).settled)
    fun term inside => (bound term inside).settled

theorem Pass.leavesAll_singleton (leaves : pass.Leaves known term) :
    pass.LeavesAll known [term] :=
  fun _ member => List.mem_singleton.mp member ▸ leaves

omit [TicketSource σ] in
theorem Pass.owns_singleton
    (owns : ∀ placeholder, term.Occurs placeholder → known pass.source placeholder) :
    pass.Owns known [term] :=
  fun _ member => List.mem_singleton.mp member ▸ owns

theorem Pass.leavesAll_literal {value : Compound}
    (literal : ∀ term ∈ value, ∃ text, term = .str text) :
    pass.LeavesAll known value := by
  intro term member
  obtain ⟨text, rfl⟩ := literal term member
  exact leaves_str text

end Terms

section Scopes

variable {recurse : Compound → PassM σ Compound} {action : PassM σ Compound}

theorem Pass.lasting_true : Pass.Lasting known (fun _ : Pass σ => True) :=
  fun _ given => given

omit [TicketSource σ] in
/-- What a name is bound to in the arena of a fit pass has known placeholders only. -/
theorem Pass.Fit.owns {slot : BlockId} {block : Block} {name : String}
    {value : Compound} (fit : pass.Fit consumer query sound known)
    (stored : pass.arena.block? slot = some block)
    (found : block.get? name = some value) : pass.Owns known value :=
  fun _ inside _ occurs =>
    fit.bound stored ⟨(name, value), OrderedMap.mem_of_get? found, inside⟩ occurs

/-- Scopes and names being resolved make no difference to what an action leaves. -/
theorem PassM.settles_around (scopes later : Pass σ → List BlockId)
    (resolving lastly : Pass σ → List (BlockId × String))
    (settles : PassM.Settles consumer query sound known
      (Pass.Owns known terms) (Pass.LeavesAll known) action) :
    PassM.Settles consumer query sound known (Pass.Owns known terms)
      (Pass.LeavesAll known) fun pass =>
      let ran := action { pass with scopes := scopes pass, resolving := resolving pass }
      (ran.1, { ran.2 with scopes := later ran.2, resolving := lastly ran.2 }) := by
  rintro pass ⟨fit, owns⟩
  have entered :
      ({ pass with scopes := scopes pass, resolving := resolving pass } : Pass σ).Fit
        consumer query sound known :=
    { fit with }
  obtain ⟨⟨grows, fits⟩, fine, _⟩ := settles _ ⟨entered, owns⟩
  refine ⟨⟨{ grows with }, fun _ => { fits entered with }⟩,
    fun value same term member => ?_, False.elim⟩
  exact { fine value same term member with }

theorem PassM.settles_inScope (scope : BlockId)
    (settles : PassM.Settles consumer query sound known
      (Pass.Owns known terms) (Pass.LeavesAll known) action) :
    PassM.Settles consumer query sound known (Pass.Owns known terms)
      (Pass.LeavesAll known) (inScope scope action) :=
  settles_around (fun pass => scope :: pass.scopes)
    (fun pass => pass.scopes.tail) Pass.resolving Pass.resolving settles

theorem PassM.settles_whileResolving (key : BlockId × String)
    (settles : PassM.Settles consumer query sound known
      (Pass.Owns known terms) (Pass.LeavesAll known) action) :
    PassM.Settles consumer query sound known (Pass.Owns known terms)
      (Pass.LeavesAll known) (whileResolving key action) :=
  settles_around Pass.scopes Pass.scopes (fun pass => key :: pass.resolving)
    (fun pass => pass.resolving.filter fun other => other != key) settles

/-- What is read is owned, if anything is. -/
def Pass.OwnsRead (known : σ → Placeholder → Prop) (pass : Pass σ)
    (found : Option Compound) : Prop :=
  ∀ value, found = some value → pass.Owns known value

theorem PassM.settles_lookup (scope : BlockId) (name : String) :
    PassM.Settles consumer query sound known (fun _ => True) (Pass.OwnsRead known)
      (inspect fun arena => arena.lookup scope name) := by
  refine settles_inspect fun pass found fit _ read value same => ?_
  subst same
  obtain ⟨slot, block, stored, bound⟩ := Arena.lookup_ok read
  exact fit.owns stored bound

theorem PassM.settles_getLocal (scope : BlockId) (name : String) :
    PassM.Settles consumer query sound known (fun _ => True) (Pass.OwnsRead known)
      (inspect fun arena => arena.getLocal scope name) := by
  refine settles_inspect fun pass found fit _ read value same => ?_
  subst same
  obtain ⟨slot, block, stored, bound⟩ := Arena.getLocal_ok read
  exact fit.owns stored bound

end Scopes

section Cases

variable {recurse : Compound → PassM σ Compound}

theorem Settling.reduceName
    (settling : Settling consumer query sound known recurse) (name : String) :
    PassM.Settles consumer query sound known (fun _ => True) (Pass.LeavesAll known)
      (Reduction.reduceName recurse name) := by
  have stays : PassM.Settles consumer query sound known (fun _ => True)
      (Pass.LeavesAll known) (pure [.name name] : PassM σ Compound) :=
    PassM.settles_pure fun _ _ _ => Pass.leavesAll_singleton (Pass.leaves_name name)
  have views : ∀ {α : Type} (f : Pass σ → α) (holds : Pass σ → Prop),
      PassM.Settles consumer query sound known holds (fun _ _ => True) (PassM.view f) :=
    fun _ _ => PassM.settles_view fun _ _ _ => trivial
  unfold Reduction.reduceName
  refine (views Pass.scope _).bind Pass.lasting_true fun scope => ?_
  refine ((PassM.settles_lookup scope name).weaken fun _ _ _ => trivial).bind
    (Pass.lasting_true.and Pass.lasting_true) fun found => ?_
  cases found with
  | none => exact stays.weaken fun _ _ _ => trivial
  | some bound =>
      have resolves : PassM.Settles consumer query sound known (Pass.Owns known bound)
          (Pass.LeavesAll known) (PassM.whileResolving (scope, name) (recurse bound)) :=
        PassM.settles_whileResolving _ (settling bound)
      refine PassM.Settles.weaken ?_ fun _ _ given => given.2 bound rfl
      refine (views (fun pass => pass.resolving.contains (scope, name)) _).bind
        Pass.lasting_owns fun resolving => ?_
      cases resolving with
      | true => exact stays.weaken fun _ _ _ => trivial
      | false => exact resolves.weaken fun _ _ given => given.1

theorem Settling.reduceOutput (settling : Settling consumer query sound known recurse)
    (cond : Cond) (branch : BlockId) (output : String) :
    PassM.Settles consumer query sound known (fun _ => True) (Pass.LeavesAll known)
      (Reduction.reduceOutput recurse cond branch output) := by
  unfold Reduction.reduceOutput
  refine (PassM.settles_getLocal branch output).bind Pass.lasting_true fun found => ?_
  cases found with
  | none => exact PassM.settles_halt
  | some value =>
      exact (PassM.settles_inScope branch (settling value)).weaken
        fun _ _ given => given.2 value rfl

theorem Settling.reduceOutputs (settling : Settling consumer query sound known recurse)
    (cond : Cond) (branch : BlockId) (names : List String) :
    PassM.Settles consumer query sound known (fun _ => True)
      (fun pass (outputs : Bindings) => outputs.keys = names ∧
        ∀ term, BoundIn outputs term → pass.Leaves known term)
      (Reduction.reduceOutputs recurse cond branch names) := by
  induction names with
  | nil =>
      exact PassM.settles_pure fun _ _ _ => ⟨rfl, fun _ bound => absurd bound boundIn_nil⟩
  | cons name rest ih =>
      unfold Reduction.reduceOutputs
      refine (settling.reduceOutput cond branch name).bind Pass.lasting_true fun value => ?_
      refine (ih.weaken fun _ _ _ => trivial).bind
        (Pass.lasting_true.and Pass.lasting_leaves) fun others => ?_
      refine PassM.settles_pure fun pass _ given => ?_
      obtain ⟨⟨_, here⟩, keys, later⟩ := given
      refine ⟨by rw [← keys]; rfl, fun term bound => ?_⟩
      exact (boundIn_cons.mp bound).elim (here term) (later term)

/-- The block of a conditional that stays: a live block whose declared outputs are settled. -/
structure Pass.HasBranch (known : σ → Placeholder → Prop) (outputs : List String)
    (pass : Pass σ) (block : BlockId) : Prop where
  live : ∃ found, pass.arena.Live block found
  outputs :
    ∀ name value term, name ∈ outputs → pass.arena.output? block name = some value →
    term ∈ value → pass.Leaves known term

theorem Pass.lasting_hasBranch {outputs : List String} {block : BlockId} :
    Pass.Lasting known (Pass.HasBranch known outputs · block) := by
  intro before after grows branch
  obtain ⟨found, live⟩ := branch.live
  refine ⟨⟨found, grows.live live⟩, fun name value term declared bound inside => ?_⟩
  rw [(grows.live live).output?, ← live.output?] at bound
  exact (branch.outputs name value term declared bound inside).grows grows

theorem Settling.residualBranch (settling : Settling consumer query sound known recurse)
    (cond : Cond) (branch : BlockId) :
    PassM.Settles consumer query sound known (fun _ => True)
      (Pass.HasBranch known cond.prototype.outputs)
      (Reduction.residualBranch recurse cond branch) := by
  unfold Reduction.residualBranch
  refine (settling.reduceOutputs cond branch _).bind Pass.lasting_true fun outputs => ?_
  refine PassM.settles_make (fun grows given => ?_) (fun pass fresh after fit made => ?_)
    (fun pass given => ?_) fun fresh block => PassM.settles_pure fun pass _ given => ?_
  · exact ⟨trivial, given.2.1, fun term bound => (given.2.2 term bound).grows grows⟩
  · obtain ⟨block, stored, extends_⟩ := fit.arena.cloneBlock made
    exact ⟨block, extends_, fun term bound placeholder => fit.bound stored bound⟩
  · exact fun term bound => (given.2.2 term bound).known
  · obtain ⟨⟨_, keys, leaves⟩, live⟩ := given
    refine ⟨⟨_, live⟩, fun name value term declared bound inside => ?_⟩
    rw [live.output?] at bound
    rcases Block.get?_rebind bound with new | ⟨absent, _⟩
    · exact leaves term ⟨_, new, inside⟩
    · exact absurd (keys ▸ declared) absent

theorem Pass.leaves_cond {cond : Cond} (condition : pass.LeavesAll known cond.condition)
    (thenBranch : pass.HasBranch known cond.prototype.outputs cond.thenBlock)
    (elseBranch : pass.HasBranch known cond.prototype.outputs cond.elseBlock) :
    pass.Leaves known cond.toTerm where
  known placeholder occurs := by
    cases occurs with
    | condition inside occurs => exact (condition _ inside).known placeholder occurs
    | output _ _ found => simp at found
  settled := by
    refine .cond (fun term inside => (condition term inside).settled) ?_ ?_
    · rintro block (rfl | rfl)
      · exact thenBranch.live
      · exact elseBranch.live
    · rintro block name value term (rfl | rfl) declared found inside
      · exact (thenBranch.outputs name value term declared found inside).settled
      · exact (elseBranch.outputs name value term declared found inside).settled

theorem Settling.reduceCond
    (settling : Settling consumer query sound known recurse) (cond : Cond) :
    PassM.Settles consumer query sound known (Pass.Owns known cond.condition)
      (Pass.LeavesAll known)
      (Reduction.reduceCond recurse cond) := by
  unfold Reduction.reduceCond
  refine (settling cond.condition).bind Pass.lasting_owns fun condition => ?_
  cases cond.prototype.output? cond.channel with
  | none => exact PassM.settles_halt
  | some output =>
      simp only [Reduction.require, pure_bind]
      cases Reduction.decide? cond condition with
      | some branch =>
          exact (settling.reduceOutput cond branch output).weaken fun _ _ _ => trivial
      | none =>
          refine PassM.Settles.weaken ?_ fun _ _ given => given.2
          refine ((settling.residualBranch cond cond.thenBlock).weaken
            fun _ _ _ => trivial).bind Pass.lasting_leaves fun thenBlock => ?_
          refine
            ((settling.residualBranch cond cond.elseBlock).weaken fun _ _ _ => trivial).bind
              (Pass.lasting_leaves.and Pass.lasting_hasBranch) fun elseBlock => ?_
          refine PassM.settles_pure fun pass _ given => Pass.leavesAll_singleton ?_
          exact Pass.leaves_cond given.1.1 given.1.2 given.2

variable (accounts : Accounts consumer query sound known)
include accounts

/-- An output that is known, or a placeholder that waits. -/
theorem Accounts.settles_resolve (placeholder : Placeholder) :
    PassM.Settles consumer query sound known (fun pass => known pass.source placeholder)
      (Pass.LeavesAll known) (Reduction.resolve placeholder) := by
  rintro pass ⟨fit, given⟩
  rw [Reduction.resolve_run]
  obtain ⟨stillSound, kept, outputs⟩ := accounts.read fit.sound rfl
  refine ⟨⟨⟨kept _, outputs, id⟩, fun fit => ?_⟩, fun value same => ?_, False.elim⟩
  · exact
      { fit with
        sound := stillSound,
        bound := fun stored bound occurs => kept _ (fit.bound stored bound occurs) }
  · obtain rfl := Except.ok.inj same
    cases stored : TicketSource.output? pass.source placeholder.ticket placeholder.channel with
    | some value => exact Pass.leavesAll_literal (accounts.literal fit.sound stored)
    | none =>
        refine Pass.leavesAll_singleton
          ⟨fun other occurs => ?_, .ticket ((outputs _ _).trans stored)⟩
        cases occurs
        exact kept _ given

theorem Accounts.settles_requestTicket {invocation : Invocation} {output : String}
    (offered : invocation.lambda.prototype.output? invocation.channel = some output) :
    PassM.Settles consumer query sound known (fun _ => True)
      (fun pass placeholder => known pass.source placeholder)
      (Reduction.requestTicket invocation.toApply) := by
  rintro pass ⟨fit, _⟩
  obtain rfl := fit.consumer
  obtain rfl := fit.query
  unfold Reduction.requestTicket
  cases asked : TicketSource.request pass.source pass.consumer pass.query
    invocation.toApply with
  | error fault => exact ⟨.refl pass, fun value same => by simp at same, False.elim⟩
  | ok granted =>
      obtain ⟨placeholder, source⟩ := granted
      obtain ⟨stillSound, issued, kept, outputs⟩ :=
        accounts.request fit.sound offered asked
      refine ⟨⟨⟨kept _, outputs, id⟩, fun fit => ?_⟩, fun value same => ?_, False.elim⟩
      · exact
          { fit with
            sound := stillSound,
            bound := fun stored bound occurs => kept _ (fit.bound stored bound occurs) }
      · obtain rfl := Except.ok.inj same
        exact issued

omit accounts in
theorem Settling.reduceNative (settling : Settling consumer query sound known recurse)
    (native : NativeLambda) (invocation : Invocation) (output : String) :
    PassM.Settles consumer query sound known
      (fun pass => ∀ term, BoundIn invocation.bindings term → pass.Leaves known term)
      (Pass.LeavesAll known) (Reduction.reduceNative recurse native invocation output) := by
  unfold Reduction.reduceNative
  refine PassM.settles_make (fun grows given term bound => (given term bound).grows grows)
    (fun pass scope after fit made =>
      ⟨_, fit.arena.alloc made, fun term bound => absurd bound boundIn_nil⟩)
    (fun pass given term bound => (given term bound).known) fun scope block => ?_
  refine (PassM.settles_inScope scope ?_).weaken
    fun _ _ _ term (inside : term ∈ []) => absurd inside List.not_mem_nil
  refine ((PassM.settles_lookup scope output).weaken fun _ _ _ => trivial).bind
    Pass.lasting_owns fun found => ?_
  cases found with
  | none => exact PassM.settles_halt
  | some value => exact (settling value).weaken fun _ _ given => given.2 value rfl

theorem Accounts.settles_reduceInvocation
    (settling : Settling consumer query sound known recurse) (invocation : Invocation) :
    PassM.Settles consumer query sound known
      (fun pass => ∀ term, BoundIn invocation.bindings term → pass.Leaves known term)
      (Pass.LeavesAll known) (Reduction.reduceInvocation recurse invocation) := by
  unfold Reduction.reduceInvocation
  cases offered : invocation.lambda.prototype.output? invocation.channel with
  | none => exact PassM.settles_halt
  | some output =>
      simp only [Reduction.require, pure_bind]
      split
      next native _ => exact settling.reduceNative native invocation output
      next lambda _ =>
        split
        · refine PassM.Settles.bind
            (fun grows given term bound => (given term bound).grows grows)
            ((accounts.settles_requestTicket offered).weaken fun _ _ _ => trivial)
            fun placeholder => ?_
          exact (accounts.settles_resolve placeholder).weaken fun _ _ given => given.2
        · refine PassM.settles_pure
            fun pass _ given => Pass.leavesAll_singleton (Pass.leaves_apply ?_ given)
          exact Pass.leavesAll_singleton (Pass.leaves_lambda _)

theorem Accounts.settles_reducePart
    (settling : Settling consumer query sound known recurse) {apply : Apply} {part : Part}
    (stems : part.StemsFrom apply) :
    PassM.Settles consumer query sound known
      (fun pass => pass.LeavesAll known apply.task ∧
        ∀ term, BoundIn apply.bindings term → pass.Leaves known term)
      (Pass.LeavesAll known) (Reduction.reducePart recurse part) := by
  cases part with
  | keep kept =>
      refine PassM.settles_pure fun pass _ given => Pass.leavesAll_singleton ?_
      exact Pass.leaves_apply (fun term inside => given.1 term (stems.1 term inside))
        fun term bound => given.2 term (stems.2 term bound)
  | invoke invocation =>
      exact (accounts.settles_reduceInvocation settling invocation).weaken
        fun _ _ given term bound => given.2 term (stems.2 term bound)
  | reject error => exact PassM.settles_halt

end Cases

section Lists

variable {recurse : Compound → PassM σ Compound} {holds : Pass σ → Prop}

theorem Pass.Advances.leavesAll {before after : Pass σ}
    (advances : before.Advances consumer query sound known after)
    (leaves : before.LeavesAll known terms) : after.LeavesAll known terms :=
  fun term member => (leaves term member).grows advances.1

theorem PassM.settles_joinMap {β : Type} {f : β → PassM σ Compound}
    {values : List β} (lasting : Pass.Lasting known holds)
    (each : ∀ value ∈ values,
      PassM.Settles consumer query sound known holds (Pass.LeavesAll known) (f value)) :
    PassM.Settles consumer query sound known holds (Pass.LeavesAll known)
      (joinMap f values) := by
  have joins : PassM.Settles consumer query sound known holds
      (fun pass result => Joined (fun _ => pass.LeavesAll known) values result)
      (joinMap f values) := by
    refine ensures_joinMap (Pass.steady_fit lasting)
      (fun {before after _ result} advances leaves => ?_) each
    have before : before.LeavesAll known result := leaves
    exact advances.leavesAll before
  refine joins.mono (fun _ => id) (fun pass result joined term member => ?_) id
  obtain ⟨_, _, _, leaves, inside⟩ := joined.exists_of_mem member
  exact leaves term inside

omit [TicketSource σ] in
theorem Pass.owns_binding {bindings : Bindings}
    {binding : String × Compound} (member : binding ∈ bindings)
    (owned : ∀ term, BoundIn bindings term →
      ∀ placeholder, term.Occurs placeholder → known pass.source placeholder) :
    pass.Owns known binding.2 :=
  fun term inside => owned term ⟨binding, member, inside⟩

theorem Pass.leaves_of_forall₂ {before after : Bindings}
    (mapped : List.Forall₂
      (fun before after => after.1 = before.1 ∧ pass.LeavesAll known after.2) before after)
    (bound : BoundIn after term) : pass.Leaves known term := by
  induction mapped with
  | nil => exact absurd bound boundIn_nil
  | cons here _ ih =>
      rcases boundIn_cons.mp bound with inside | later
      · exact here.2 term inside
      · exact ih later

theorem Settling.mapEntries (settling : Settling consumer query sound known recurse)
    {bindings : Bindings} (lasting : Pass.Lasting known holds)
    (owned : ∀ pass, holds pass → ∀ term, BoundIn bindings term →
      ∀ placeholder, term.Occurs placeholder → known pass.source placeholder) :
    PassM.Settles consumer query sound known holds
      (fun pass (results : Bindings) => ∀ term, BoundIn results term → pass.Leaves known term)
      (PassM.mapEntries recurse bindings) := by
  have each : ∀ binding ∈ bindings,
      PassM.Settles consumer query sound known holds (Pass.LeavesAll known)
        (recurse binding.2) := fun binding member =>
    (settling binding.2).weaken fun pass _ given => Pass.owns_binding member (owned pass given)
  have maps : PassM.Settles consumer query sound known holds
      (fun pass results => List.Forall₂ (fun before after => after.1 = before.1 ∧
        pass.LeavesAll known after.2) bindings results) (PassM.mapEntries recurse bindings) :=
    @PassM.ensures_mapEntries σ Compound Compound _ _ False String recurse bindings
      (fun pass _ result => pass.LeavesAll known result) (Pass.steady_fit lasting)
      (fun advances leaves => advances.leavesAll leaves) each
  exact maps.mono (fun _ => id)
    (fun _ _ mapped _ bound => Pass.leaves_of_forall₂ mapped bound) id

end Lists

section Reduction

variable {recurse : Compound → PassM σ Compound}
  (accounts : Accounts consumer query sound known)
include accounts

theorem Accounts.settles_reduceApply
    (settling : Settling consumer query sound known recurse) (apply : Apply) :
    PassM.Settles consumer query sound known (Pass.Owns known [apply.toTerm])
      (Pass.LeavesAll known)
      (Reduction.reduceApply recurse apply) := by
  have inside {pass : Pass σ} (owns : pass.Owns known [apply.toTerm])
      {term : Term} (within : term ∈ apply.task ∨ BoundIn apply.bindings term)
      (placeholder : Placeholder)
      (occurs : term.Occurs placeholder) : known pass.source placeholder :=
    owns _ List.mem_cons_self placeholder (Apply.occurs_iff.mpr ⟨term, within, occurs⟩)
  unfold Reduction.reduceApply
  refine ((settling apply.task).weaken fun _ _ owns term member =>
    inside owns (.inl member)).bind Pass.lasting_owns fun task => ?_
  refine (settling.mapEntries (Pass.lasting_owns.and Pass.lasting_leaves)
    fun pass given term bound => inside given.1 (.inr bound)).bind
    (Pass.lasting_owns.and Pass.lasting_leaves) fun bindings => ?_
  refine PassM.Settles.weaken ?_ fun _ _ given => And.intro given.1.2 given.2
  refine PassM.settles_joinMap (fun grows given => ⟨Pass.lasting_leaves grows given.1,
    fun term bound => (given.2 term bound).grows grows⟩) fun part member => ?_
  exact accounts.settles_reducePart settling (Apply.stems_of_mem_expand member)

omit accounts in
theorem PassM.settles_bindParams (native : NativeLambda) (bindings : Bindings) :
    PassM.Settles consumer query sound known
      (fun pass => ∀ term, BoundIn bindings term → pass.Leaves known term)
      (fun _ _ => True) (Reduction.bindParams native bindings) := by
  unfold Reduction.bindParams
  refine settles_make (fun grows given term bound => (given term bound).grows grows)
    (fun pass body after fit made => ?_)
    (fun pass given term bound => (given term bound).known)
    fun body block => settles_pure fun _ _ _ => trivial
  obtain ⟨block, stored, extends_⟩ := fit.arena.cloneBlock made
  exact ⟨block, extends_, fun term bound placeholder => fit.bound stored bound⟩

omit accounts in
theorem PassM.settles_closeCurry (curry : Curry) (task : Compound) (bindings : Bindings) :
    PassM.Settles consumer query sound known
      (fun pass => pass.LeavesAll known task ∧
        ∀ term, BoundIn bindings term → pass.Leaves known term) (Pass.LeavesAll known)
      (Reduction.closeCurry curry task bindings) := by
  have stays : PassM.Settles consumer query sound known
      (fun pass => pass.LeavesAll known task ∧
        ∀ term, BoundIn bindings term → pass.Leaves known term) (Pass.LeavesAll known)
      (pure [Curry.toTerm { task := some task, bindings }] : PassM σ Compound) :=
    settles_pure fun _ _ given => Pass.leavesAll_singleton (Pass.leaves_curry given.1 given.2)
  unfold Reduction.closeCurry
  split
  · exact settles_halt
  next native =>
    refine PassM.Settles.weaken ?_ fun _ _ given => given.2
    refine (settles_bindParams native bindings).bind
      (fun grows given term bound => (given term bound).grows grows) fun bound => ?_
    exact settles_pure fun _ _ _ => Pass.leavesAll_singleton (Pass.leaves_lambda _)
  · exact settles_halt
  next other _ _ =>
    split
    · exact settles_halt
    · exact stays
  · exact stays

omit accounts in
theorem Settling.reduceCurry
    (settling : Settling consumer query sound known recurse) (curry : Curry) :
    PassM.Settles consumer query sound known (Pass.Owns known [curry.toTerm])
      (Pass.LeavesAll known)
      (Reduction.reduceCurry recurse curry) := by
  obtain ⟨task, bindings⟩ := curry
  cases task with
  | none => exact PassM.settles_halt
  | some tasks =>
      cases tasks with
      | nil => exact PassM.settles_halt
      | cons term others =>
          cases others with
          | cons second rest =>
              refine PassM.settles_pure fun pass _ owns =>
                Pass.leavesAll_singleton ⟨owns _ List.mem_cons_self, ?_⟩
              exact .several (Nat.le_add_left 2 rest.length)
          | nil =>
              have inTask (pass : Pass σ)
                  (owns : pass.Owns known [Curry.toTerm { task := some [term], bindings }]) :
                  pass.Owns known [term] :=
                fun other member placeholder occurs =>
                owns _ List.mem_cons_self placeholder (.curryTask trivial member occurs)
              have inBindings (pass : Pass σ)
                  (owns : pass.Owns known [Curry.toTerm { task := some [term], bindings }]) :
                  ∀ other, BoundIn bindings other →
                  ∀ placeholder, other.Occurs placeholder →
                    known pass.source placeholder := fun other bound placeholder occurs =>
                owns _ List.mem_cons_self placeholder
                  (.curryBinding (fun _ _ => trivial) bound occurs)
              refine ((settling [term]).weaken fun pass _ => inTask pass).bind
                Pass.lasting_owns fun task => ?_
              refine (settling.mapEntries (Pass.lasting_owns.and Pass.lasting_leaves)
                fun pass given => inBindings pass given.1).bind
                (Pass.lasting_owns.and Pass.lasting_leaves) fun reduced => ?_
              exact (PassM.settles_closeCurry _ task reduced).weaken fun _ _ given =>
                ⟨given.1.2, given.2⟩

theorem Accounts.settles_reduceTerm
    (settling : Settling consumer query sound known recurse) (term : Term) :
    PassM.Settles consumer query sound known (Pass.Owns known [term]) (Pass.LeavesAll known)
      (Reduction.reduceTerm recurse term) := by
  cases term with
  | str value =>
      exact PassM.settles_pure fun _ _ _ => Pass.leavesAll_singleton (Pass.leaves_str value)
  | lambda value =>
      exact PassM.settles_pure fun _ _ _ => Pass.leavesAll_singleton (Pass.leaves_lambda value)
  | name name => exact (settling.reduceName name).weaken fun _ _ _ => trivial
  | ticket placeholder =>
      exact (accounts.settles_resolve placeholder).weaken
        fun _ _ owns => owns _ List.mem_cons_self _ .ticket
  | cond condition prototype channel thenBlock elseBlock =>
      exact
        (settling.reduceCond { condition, prototype, channel, thenBlock, elseBlock }).weaken
          fun _ _ owns term inside placeholder occurs =>
          owns _ List.mem_cons_self placeholder (.condition inside occurs)
  | apply task bindings channel rest =>
      exact accounts.settles_reduceApply settling { task, bindings, channel, rest }
  | curry task bindings => exact settling.reduceCurry { task, bindings }

/-- Whatever known terms a pass starts from, what it leaves is settled. -/
theorem Accounts.settling_reduce (depth : Nat) :
    Settling consumer query sound known
      (Reduction.reduce depth : Compound → PassM σ Compound) := by
  induction depth with
  | zero => exact fun _ => PassM.settles_halt
  | succ depth ih =>
      refine fun terms => PassM.settles_joinMap Pass.lasting_owns fun term member => ?_
      exact (accounts.settles_reduceTerm ih term).weaken fun _ _ owns =>
        Pass.owns_singleton (owns term member)

theorem Accounts.settles_reduceTargets (depth : Nat) (targets : List Compound) :
    PassM.Settles consumer query sound known (Pass.Owns known targets.flatten)
      (fun pass results => pass.LeavesAll known results.flatten)
      (Reduction.reduceTargets depth targets) := by
  induction targets with
  | nil => exact PassM.settles_pure fun _ _ _ _ inside => absurd inside List.not_mem_nil
  | cons target rest ih =>
      unfold Reduction.reduceTargets
      refine ((accounts.settling_reduce depth target).weaken fun _ _ owns term inside =>
        owns term (List.mem_append_left _ inside)).bind Pass.lasting_owns fun head => ?_
      refine (ih.weaken fun _ _ given term inside =>
        given.1 term (List.mem_append_right _ inside)).bind
        (Pass.lasting_owns.and Pass.lasting_leaves) fun tail => ?_
      refine PassM.settles_pure fun _ _ given term inside => ?_
      exact (List.mem_append.mp inside).elim (given.1.2 term) (given.2 term)

end Reduction

/-- The arena is sound, and every placeholder in it and in the targets is known. -/
structure Context.Accounted (known : Placeholder → Prop) (context : Context) : Prop where
  arena : context.arena.Sound
  bound :
    ∀ {slot block term placeholder}, context.arena.block? slot = some block →
    BoundIn block.bindings term → term.Occurs placeholder → known placeholder
  targets :
    ∀ term ∈ context.current, ∀ placeholder, term.Occurs placeholder → known placeholder

theorem Context.Accounted.exposed {context : Context} {known : Placeholder → Prop}
    (accounted : context.Accounted known) {term : Term} (inside : term ∈ context.current)
    {placeholder : Placeholder}
    (exposes : context.arena.Exposes placeholder term) : known placeholder := by
  obtain occurs | ⟨slot, block, bound, stored, within, occurs⟩ := exposes.occurs
  · exact accounted.targets term inside placeholder occurs
  · exact accounted.bound stored within occurs

/-- A pass accounts for the placeholders it leaves; those that show in its
result have no output. -/
theorem Context.Accounted.reduce {context : Context}
    {source : σ} (accounted : context.Accounted (known source))
    (accounts : Accounts consumer query sound known) (holds : sound source)
    (depth : Nat) : sound (context.reduce depth source consumer query).source ∧
      (context.reduce depth source consumer query).context.Accounted
        (known (context.reduce depth source consumer query).source) ∧
      ∀ result, (context.reduce depth source consumer query).outcome = .ok result →
        result = (context.reduce depth source consumer query).context.current ∧
          ∀ term ∈ result, ∀ placeholder,
            (context.reduce depth source consumer query).context.arena.Exposes placeholder
              term → TicketSource.output?
              (context.reduce depth source consumer query).source placeholder.ticket
              placeholder.channel = none := by
  have fit : (Pass.start consumer query source context.arena context.root).Fit consumer
      query sound known :=
    ⟨rfl, rfl, holds, accounted.arena, accounted.bound⟩
  obtain ⟨⟨grows, stillFit⟩, fine, _⟩ :=
    accounts.settles_reduceTargets depth context.targets _ ⟨fit, accounted.targets⟩
  replace stillFit := stillFit fit
  unfold Context.reduce
  cases outcome : Reduction.reduceTargets depth context.targets
      (Pass.start consumer query source context.arena context.root) with
  | mk result after =>
      rw [outcome] at grows stillFit fine
      cases result with
      | error reason =>
          refine ⟨stillFit.sound,
            ⟨stillFit.arena, stillFit.bound, fun term inside placeholder occurs => ?_⟩, ?_⟩
          · exact grows.known (accounted.targets term inside placeholder occurs)
          · exact fun result same => by simp at same
      | ok targets =>
          have leaves := fine targets rfl
          refine ⟨stillFit.sound, ⟨Arena.sound_collected _ _ _, ?_,
            fun term inside => (leaves term inside).known⟩, ?_⟩
          · intro slot block term placeholder stored bound occurs
            rcases Arena.block?_of_collected stored with rfl | before
            · exact absurd bound boundIn_nil
            · exact stillFit.bound before bound occurs
          · intro result same
            obtain rfl := Except.ok.inj same
            refine ⟨rfl, fun term inside placeholder exposes => ?_⟩
            exact (leaves term inside).settled.waits_of_exposes
              (Arena.exposes_of_collected exposes)

end TicketFlow
