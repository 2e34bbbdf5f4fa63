import Mathlib.Logic.Relation
import TicketFlow.Proofs.Evaluation.Pass

namespace TicketFlow

/-! A pass over a plain compound depends on its scope by what names stand for.

Where a pass ends with a value, so does every pass that reads the same for the
names that come up, whatever else its arena holds.  Every name in the value was
looked up, and is bound nowhere.
-/

variable {σ : Type}

/-- The name comes up while one of the others is resolved. -/
def ComesUp (lookup : String → Option Compound) (names : List String)
    (name : String) : Prop :=
  ∃ outer ∈ names, Relation.ReflTransGen (Mentions lookup) outer name

/-- Whatever the first pass reads for a name that comes up is what it stands for, and the
second pass reads it as well.  No such name is being resolved in either. -/
structure Pass.Echoes (lookup : String → Option Compound) (names : List String)
    (first second : Pass σ) : Prop where
  consumer : second.consumer = first.consumer
  query : second.query = first.query
  reads :
    ∀ {name found}, ComesUp lookup names name → first.arena.lookup first.scope name =
    .ok found → found = lookup name ∧ second.arena.lookup second.scope name = .ok found
  resolving : ∀ key, key ∈ first.resolving ∨ key ∈ second.resolving → ∀ name ∈ names,
    Relation.TransGen (Mentions lookup) key.2 name

/-- If the action gives a value in the first pass, it gives the same in the second, and
nothing but the source changes, in both the same way. -/
def PassM.Echoed {α : Type} (first second : Pass σ) (good : α → Prop)
    (action : PassM σ α) : Prop :=
  ∀ source value after, action { first with source } = (.ok value, after) →
    ∃ next, after = { first with source := next } ∧
      action { second with source } = (.ok value, { second with source := next }) ∧ good value

/-- What a pass over plain compounds may leave: every name in it was looked up in the
scope and found nowhere, and a lambda is foreign. -/
structure Term.Loose (arena : Arena) (scope : BlockId) (term : Term) : Prop where
  foreign : ∀ lambda, term = .lambda lambda → ∃ task, lambda = .foreign task
  unbound : ∀ name ∈ term.names, arena.lookup scope name = .ok none

variable {lookup : String → Option Compound} {names fewer : List String}
  {first second : Pass σ} {arena : Arena} {scope : BlockId}

section Names

variable {name inner : String} {bound : Compound}

theorem ComesUp.self (member : name ∈ names) : ComesUp lookup names name :=
  ⟨name, member, .refl⟩

theorem ComesUp.of_bound (bindsTo : lookup name = some bound)
    (inside : ComesUp lookup (Term.namesOfAll bound) inner) :
    ComesUp lookup [name] inner := by
  obtain ⟨outer, member, leads⟩ := inside
  exact ⟨name, List.mem_cons_self, .head ⟨bound, bindsTo, member⟩ leads⟩

theorem Pass.Echoes.subset (echoes : first.Echoes lookup names second)
    (subset : ∀ name ∈ fewer, name ∈ names) : first.Echoes lookup fewer second :=
  { echoes with
    reads := fun ⟨outer, member, leads⟩ => echoes.reads ⟨outer, subset outer member, leads⟩
    resolving := fun key among name member =>
      echoes.resolving key among name (subset name member) }

/-- What a name stands for is resolved in passes that echo each other again. -/
theorem Pass.Echoes.resolve (echoes : first.Echoes lookup [name] second)
    (bindsTo : lookup name = some bound) :
    ({ first with resolving := (first.scope, name) :: first.resolving } : Pass σ).Echoes
      lookup (Term.namesOfAll bound)
      { second with resolving := (second.scope, name) :: second.resolving } where
  consumer := echoes.consumer
  query := echoes.query
  reads up := echoes.reads (.of_bound bindsTo up)
  resolving := by
    intro key among inner member
    have mentions : Mentions lookup name inner := ⟨bound, bindsTo, member⟩
    simp only [List.mem_cons] at among
    rcases among with (rfl | before) | rfl | before
    · exact .single mentions
    · exact (echoes.resolving key (.inl before) name List.mem_cons_self).tail mentions
    · exact .single mentions
    · exact (echoes.resolving key (.inr before) name List.mem_cons_self).tail mentions

end Names

section Actions

variable {α β : Type} {good : α → Prop} {better : β → Prop}

theorem PassM.echoed_pure {value : α} (fine : good value) :
    (pure value : PassM σ α).Echoed first second good := by
  intro source result after ran
  obtain ⟨rfl, rfl⟩ : value = result ∧ { first with source } = after := by simpa using ran
  exact ⟨source, rfl, rfl, fine⟩

theorem PassM.echoed_halt {reason : Halt} :
    (PassM.halt reason : PassM σ α).Echoed first second good := by
  intro source result after ran
  simp [PassM.halt] at ran

theorem PassM.Echoed.bind {action : PassM σ α}
    {next : α → PassM σ β} (ran : action.Echoed first second good)
    (further : ∀ value, good value → (next value).Echoed first second better) :
    (action >>= next).Echoed first second better := by
  intro source result final whole
  obtain ⟨value, after, here, rest⟩ := PassM.bind_ok_iff.mp whole
  obtain ⟨middle, rfl, again, fine⟩ := ran source value after here
  obtain ⟨last, rfl, finished, better⟩ := further value fine middle result final rest
  exact ⟨last, rfl, PassM.bind_ok_iff.mpr ⟨value, _, again, finished⟩, better⟩

theorem PassM.echoed_joinMap {f : β → PassM σ Compound}
    {values : List β} {fine : Term → Prop}
    (each : ∀ value ∈ values,
      (f value).Echoed first second fun result => ∀ term ∈ result, fine term) :
    (PassM.joinMap f values).Echoed first second fun result => ∀ term ∈ result, fine term := by
  induction values with
  | nil => exact PassM.echoed_pure (by simp)
  | cons value rest ih =>
      rw [List.forall_mem_cons] at each
      unfold PassM.joinMap
      exact each.1.bind fun head fineHead => (ih each.2).bind fun tail fineTail =>
        PassM.echoed_pure (List.forall_mem_append.mpr ⟨fineHead, fineTail⟩)

theorem PassM.echoed_mapEntries {f : Compound → PassM σ Compound}
    {entries : Bindings} {fine : Term → Prop}
    (each : ∀ entry ∈ entries,
      (f entry.2).Echoed first second fun result => ∀ term ∈ result, fine term) :
    (PassM.mapEntries f entries).Echoed first second
      fun results => ∀ term, BoundIn results term → fine term := by
  induction entries with
  | nil => exact PassM.echoed_pure fun term bound => absurd bound boundIn_nil
  | cons entry rest ih =>
      rw [List.forall_mem_cons] at each
      obtain ⟨key, value⟩ := entry
      unfold PassM.mapEntries
      refine each.1.bind fun head fineHead =>
        (ih each.2).bind fun tail fineTail => PassM.echoed_pure ?_
      exact fun term bound => (boundIn_cons.mp bound).elim (fineHead term) (fineTail term)

end Actions

section Resolving

namespace Reduction

theorem reduceName_ok_iff {recurse : Compound → PassM σ Compound}
    {name : String} {pass after : Pass σ} {value : Compound}
    (fresh : (pass.scope, name) ∉ pass.resolving) :
    reduceName recurse name pass = (.ok value, after) ↔
      (pass.arena.lookup pass.scope name = .ok none ∧ value = [.name name] ∧ after = pass) ∨
        ∃ bound, pass.arena.lookup pass.scope name = .ok (some bound) ∧
          PassM.whileResolving (pass.scope, name) (recurse bound) pass =
            (.ok value, after) := by
  cases read : pass.arena.lookup pass.scope name with
  | error fault => simp [reduceName, PassM.bind_run, PassM.view, PassM.inspect, read]
  | ok found =>
      cases found with
      | none =>
          simp [reduceName, PassM.bind_run, PassM.view, PassM.inspect, read, eq_comm]
      | some bound =>
          simp [reduceName, PassM.bind_run, PassM.view, PassM.inspect, read, fresh]

theorem whileResolving_echoed {action : PassM σ Compound} {key other : BlockId × String}
    {good : Compound → Prop} (fresh : key ∉ first.resolving)
    (unmet : other ∉ second.resolving)
    (echoed : action.Echoed { first with resolving := key :: first.resolving }
      { second with resolving := other :: second.resolving } good) {source : σ}
      {value : Compound} {after : Pass σ}
    (ran : PassM.whileResolving key action { first with source } = (.ok value, after)) :
    ∃ next, after = { first with source := next } ∧
      PassM.whileResolving other action { second with source } =
        (.ok value, { second with source := next }) ∧ good value := by
  have restored {key : BlockId × String}
      {resolving : List (BlockId × String)} (absent : key ∉ resolving) :
      (key :: resolving).filter (fun met => met != key) = resolving := by
    rw [List.filter_cons_of_neg (by simp)]
    refine List.filter_eq_self.mpr fun met member => bne_iff_ne.mpr ?_
    rintro rfl
    exact absent member
  unfold PassM.whileResolving at ran ⊢
  cases outcome : action { first with source, resolving := key :: first.resolving } with
  | mk result reached =>
      simp only [outcome, Prod.mk.injEq] at ran
      obtain ⟨rfl, rfl⟩ := ran
      obtain ⟨next, rfl, again, fine⟩ := echoed source _ _ outcome
      simp only at again
      refine ⟨next, by rw [restored fresh], ?_, fine⟩
      rw [again]
      simp only [restored unmet]

theorem echoed_name (echoes : first.Echoes lookup [name] second)
    (acyclic : Acyclic lookup) {recurse : Compound → PassM σ Compound}
    (value : ∀ {bound}, lookup name = some bound →
      (recurse bound).Echoed { first with resolving := (first.scope, name) :: first.resolving }
        { second with resolving := (second.scope, name) :: second.resolving }
        fun result => ∀ term ∈ result, term.Loose first.arena first.scope) :
    (reduceName recurse name).Echoed first second
      fun result => ∀ term ∈ result, term.Loose first.arena first.scope := by
  have fresh {key : BlockId × String}
      (among : key ∈ first.resolving ∨ key ∈ second.resolving) : key.2 ≠ name := by
    rintro rfl
    exact acyclic _ (echoes.resolving key among _ List.mem_cons_self)
  have up : ComesUp lookup [name] name := .self List.mem_cons_self
  intro source result after ran
  have unmet : (first.scope, name) ∉ first.resolving :=
    fun member => fresh (.inl member) rfl
  have unmetAgain : (second.scope, name) ∉ second.resolving :=
    fun member => fresh (.inr member) rfl
  have again (next : σ) {outcome : Compound} {final : Pass σ} :=
    @reduceName_ok_iff σ recurse name
      { second with source := next } final outcome unmetAgain
  obtain ⟨read, rfl, rfl⟩ | ⟨bound, read, ran⟩ :=
    (@reduceName_ok_iff σ recurse name { first with source } after result unmet).mp ran
  · refine ⟨source, rfl, (again source).mpr (.inl ⟨(echoes.reads up read).2, rfl, rfl⟩), ?_⟩
    refine List.forall_mem_singleton.mpr ⟨by simp, fun used inside => ?_⟩
    rw [Term.names, List.mem_singleton] at inside
    exact inside ▸ read
  · obtain ⟨same, found⟩ := echoes.reads up read
    obtain ⟨next, rfl, further, loose⟩ :=
      whileResolving_echoed unmet unmetAgain (value same.symm) ran
    exact ⟨next, rfl, (again source).mpr (.inr ⟨bound, found, further⟩), loose⟩

end Reduction

end Resolving

section Passes

variable [TicketSource σ]

/-- Every output that a source knows is made of strings. -/
def TicketSource.Speaks (σ : Type) [TicketSource σ] : Prop :=
  ∀ {source : σ} {id channel value}, TicketSource.output? source id channel = some value →
    ∀ term ∈ value, ∃ text, term = .str text

theorem Term.loose_str {text : String} : (Term.str text).Loose arena scope :=
  ⟨by simp, by simp [Term.names]⟩

theorem Term.loose_ticket {placeholder : Placeholder} :
    (Term.ticket placeholder).Loose arena scope :=
  ⟨by simp, by simp [Term.names]⟩

/-- An application that is made of terms that were left is one that may be left itself. -/
theorem Apply.loose {apply : Apply} (tasks : ∀ term ∈ apply.task, term.Loose arena scope)
    (bindings : ∀ term, BoundIn apply.bindings term → term.Loose arena scope) :
    apply.toTerm.Loose arena scope where
  foreign := by simp [Apply.toTerm]
  unbound name member := by
    simp only [Apply.toTerm, Term.names, List.mem_append] at member
    rcases member with inTask | inBindings
    · obtain ⟨term, inside, among⟩ := Term.mem_namesOfAll_iff.mp inTask
      exact (tasks term inside).unbound name among
    · obtain ⟨binding, entry, here⟩ := Term.mem_namesOfBindings_iff.mp inBindings
      obtain ⟨term, inside, among⟩ := Term.mem_namesOfAll_iff.mp here
      exact (bindings term ⟨binding, entry, inside⟩).unbound name among

namespace Reduction

theorem echoed_resolve (speaks : TicketSource.Speaks σ) (placeholder : Placeholder) :
    (resolve placeholder : PassM σ Compound).Echoed first second fun result =>
      ∀ term ∈ result, term.Loose arena scope := by
  intro source value after ran
  simp only [resolve_run, Prod.mk.injEq, Except.ok.injEq] at ran
  obtain ⟨rfl, rfl⟩ := ran
  refine ⟨_, rfl, rfl, fun term inside => ?_⟩
  cases known : TicketSource.output? source placeholder.ticket placeholder.channel with
  | none =>
      rw [known, Option.getD_none, List.mem_singleton] at inside
      exact inside ▸ Term.loose_ticket
  | some result =>
      rw [known, Option.getD_some] at inside
      obtain ⟨text, rfl⟩ := speaks known term inside
      exact Term.loose_str

theorem echoed_requestTicket (echoes : first.Echoes lookup names second) (apply : Apply) :
    (requestTicket apply : PassM σ Placeholder).Echoed first second fun _ => True := by
  intro source value after ran
  simp only [requestTicket] at ran ⊢
  rw [echoes.consumer, echoes.query]
  cases asked : TicketSource.request source first.consumer first.query apply with
  | error fault => simp [asked] at ran
  | ok granted =>
      simp only [asked, Prod.mk.injEq, Except.ok.injEq] at ran
      obtain ⟨rfl, rfl⟩ := ran
      exact ⟨granted.2, rfl, rfl, trivial⟩

theorem echoed_part {recurse : Compound → PassM σ Compound} {apply : Apply} {part : Part}
    (speaks : TicketSource.Speaks σ) (echoes : first.Echoes lookup names second)
    (stems : part.StemsFrom apply) (tasks : ∀ term ∈ apply.task, term.Loose arena scope)
    (bindings : ∀ term, BoundIn apply.bindings term → term.Loose arena scope) :
    (reducePart recurse part).Echoed first second
      fun result => ∀ term ∈ result, term.Loose arena scope := by
  cases part with
  | keep kept =>
      refine PassM.echoed_pure (List.forall_mem_singleton.mpr (Apply.loose ?_ ?_))
      · exact fun term inside => tasks term (stems.1 term inside)
      · exact fun term bound => bindings term (stems.2 term bound)
  | reject error => exact PassM.echoed_halt
  | invoke invocation =>
      obtain ⟨lambda, arguments, channel⟩ := invocation
      obtain ⟨task, rfl⟩ := (tasks _ stems.1).foreign lambda rfl
      simp only [reducePart, reduceInvocation]
      cases offered : (Lambda.foreign task).prototype.output? channel with
      | none => exact PassM.echoed_halt
      | some output =>
          simp only [require, pure_bind]
          split
          · exact (echoed_requestTicket echoes _).bind
              fun placeholder _ => echoed_resolve speaks placeholder
          · refine PassM.echoed_pure (List.forall_mem_singleton.mpr (Apply.loose ?_ ?_))
            · exact fun term inside => List.mem_singleton.mp inside ▸ tasks _ stems.1
            · exact fun term bound => bindings term (stems.2 term bound)

theorem echoed_apply {recurse : Compound → PassM σ Compound} {apply : Apply}
    (speaks : TicketSource.Speaks σ) (echoes : first.Echoes lookup names second)
    (task : (recurse apply.task).Echoed first second fun result =>
      ∀ term ∈ result, term.Loose arena scope) (bindings : ∀ entry ∈ apply.bindings,
      (recurse entry.2).Echoed first second
        fun result => ∀ term ∈ result, term.Loose arena scope) :
    (reduceApply recurse apply).Echoed first second
      fun result => ∀ term ∈ result, term.Loose arena scope := by
  unfold reduceApply
  refine task.bind fun reduced looseTask =>
    (PassM.echoed_mapEntries bindings).bind fun arguments looseArguments => ?_
  exact PassM.echoed_joinMap fun part member =>
    echoed_part speaks echoes (Apply.stems_of_mem_expand member) looseTask looseArguments

/-- A pass over a plain compound that ends with a value ends with the same wherever
names stand for the same. -/
theorem echoed_reduce (speaks : TicketSource.Speaks σ) (plainScope : PlainScope lookup)
    (depth : Nat) {compound : Compound} (plain : Term.AreAllPlain lookup compound)
    (echoes : first.Echoes lookup (Term.namesOfAll compound) second) :
    (reduce depth compound : PassM σ Compound).Echoed first second fun result =>
      ∀ term ∈ result, term.Loose first.arena first.scope := by
  induction depth generalizing compound first second with
  | zero => exact PassM.echoed_halt
  | succ depth ih =>
      refine PassM.echoed_joinMap fun term member => ?_
      have here := Term.areAllPlain_iff.mp plain term member
      have echoes : first.Echoes lookup term.names second :=
        echoes.subset fun name inside => Term.mem_namesOfAll_iff.mpr ⟨term, member, inside⟩
      cases term with
      | cond => exact here.elim
      | curry => exact here.elim
      | str text => exact PassM.echoed_pure (List.forall_mem_singleton.mpr Term.loose_str)
      | ticket placeholder => exact echoed_resolve speaks placeholder
      | lambda lambda =>
          obtain ⟨task, rfl⟩ := Term.foreign_of_isPlain here
          exact PassM.echoed_pure
            (List.forall_mem_singleton.mpr ⟨by simp, by simp [Term.names]⟩)
      | name name =>
          exact echoed_name echoes plainScope.acyclic fun bindsTo =>
            ih (plainScope.plain bindsTo) (echoes.resolve bindsTo)
      | apply task bindings channel rest =>
          refine echoed_apply speaks echoes (ih here.1 (echoes.subset fun name inside => ?_))
            fun entry member => ih ?_ (echoes.subset fun name inside => ?_)
          · exact List.mem_append_left _ inside
          · refine Term.areAllPlain_iff.mpr fun term inside => ?_
            exact Term.areBindingsPlain_iff.mp here.2.1 term ⟨entry, member, inside⟩
          · exact List.mem_append_right _
              (Term.mem_namesOfBindings_iff.mpr ⟨entry, member, inside⟩)

end Reduction

end Passes

end TicketFlow
