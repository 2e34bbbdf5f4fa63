import TicketFlow.Proofs.Arena.Search
import TicketFlow.Proofs.Reduction.Action
import TicketFlow.Proofs.Reduction.Requests
import TicketFlow.Proofs.Stability.Rest
import TicketFlow.Proofs.Stability.Twin

namespace TicketFlow

/-! A pass over what a pass left, while no more is known.

If every name on the way is left open where it is met, and nothing is left of
the applications to be expanded, then the pass comes to a copy of what it
started with.  It makes the blocks for the copied branches and no others, up to
those of outputs that are declared twice, and asks for no ticket.
-/

variable {σ : Type} {known : TicketId → Nat → Option Compound}

section Names

namespace Arena

/-- In the scope the name stands for the other name alone. -/
def Renames (arena : Arena) (scope : BlockId) (name other : String) : Prop :=
  arena.lookup scope name = .ok (some [.name other])

/-- In the scope the name stands for nothing, or for itself, through names alone. -/
def LeavesOpen (arena : Arena) (scope : BlockId) (name : String) : Prop :=
  arena.lookup scope name = .ok none ∨ Relation.TransGen (arena.Renames scope) name name

/-- From name to name, over the others, to the last one. -/
inductive LeadsTo (arena : Arena) (scope : BlockId) (last : String) :
    String → List String → Prop where
  | back {name : String} :
      arena.Renames scope name last → LeadsTo arena scope last name []
  | on {name next : String} {rest : List String} :
      arena.Renames scope name next → LeadsTo arena scope last next rest →
      LeadsTo arena scope last name (next :: rest)

/-- The name is left open, and comes back to itself over less than so many others. -/
def OpenWithin (within : Nat) (arena : Arena) (scope : BlockId) (name : String) : Prop :=
  arena.lookup scope name = .ok none ∨
    ∃ others, others.length < within ∧
      (name :: others).Nodup ∧ arena.LeadsTo scope name name others

variable {arena base : Arena} {scope : BlockId} {name last other : String}
  {others : List String} {within more : Nat}

theorem LeadsTo.suffix (leads : arena.LeadsTo scope last name others)
    (met : other ∈ name :: others) :
    ∃ rest, other :: rest <:+ name :: others ∧ arena.LeadsTo scope last other rest := by
  induction leads with
  | back renames =>
      obtain rfl := List.mem_singleton.mp met
      exact ⟨[], List.suffix_rfl, .back renames⟩
  | on renames further ih =>
      rcases List.mem_cons.mp met with rfl | later
      · exact ⟨_, List.suffix_rfl, .on renames further⟩
      · obtain ⟨rest, ends, onward⟩ := ih later
        exact ⟨rest, ends.trans (List.suffix_cons _ _), onward⟩

/-- A way from name to name need not come to any of them twice. -/
theorem exists_leadsTo (chain : Relation.TransGen (arena.Renames scope) name last) :
    ∃ others, (name :: others).Nodup ∧ arena.LeadsTo scope last name others := by
  induction chain using Relation.TransGen.head_induction_on with
  | single renames => exact ⟨[], List.nodup_singleton _, .back renames⟩
  | @head name next renames _ ih =>
      obtain ⟨others, distinct, leads⟩ := ih
      by_cases met : name ∈ next :: others
      · obtain ⟨rest, ends, onward⟩ := leads.suffix met
        exact ⟨rest, distinct.sublist ends.sublist, onward⟩
      · exact ⟨next :: others, List.nodup_cons.mpr ⟨met, distinct⟩, .on renames leads⟩

theorem LeavesOpen.openWithin (leaves : arena.LeavesOpen scope name) :
    ∃ within, arena.OpenWithin within scope name := by
  rcases leaves with free | chain
  · exact ⟨0, .inl free⟩
  · obtain ⟨others, distinct, leads⟩ := exists_leadsTo chain
    exact ⟨others.length + 1, .inr ⟨others, Nat.lt_succ_self _, distinct, leads⟩⟩

theorem OpenWithin.mono (opens : arena.OpenWithin within scope name)
    (le : within ≤ more) : arena.OpenWithin more scope name :=
  opens.imp id fun ⟨others, short, rest⟩ => ⟨others, Nat.lt_of_lt_of_le short le, rest⟩

end Arena

open Arena

variable {recurse : Compound → PassM σ Compound} {pass : Pass σ} {base : Arena}
  {scope : BlockId} {name last : String} {others : List String} {bound result : Compound}
  {within depth : Nat}

theorem Reduction.reduceName_of_free (entered : pass.scope = scope)
    (read : pass.arena.lookup scope name = .ok none) :
    reduceName recurse name pass = (.ok [.name name], pass) := by
  simp [reduceName, PassM.bind_run, PassM.view, PassM.inspect, entered, read]

theorem Reduction.reduceName_of_met (entered : pass.scope = scope)
    (read : pass.arena.lookup scope name = .ok (some bound))
    (met : (scope, name) ∈ pass.resolving) :
    reduceName recurse name pass = (.ok [.name name], pass) := by
  simp [reduceName, PassM.bind_run, PassM.view, PassM.inspect, entered, read, met]

/-- A name whose value reduces without a trace does so too. -/
theorem Reduction.reduceName_of_still (entered : pass.scope = scope)
    (read : pass.arena.lookup scope name = .ok (some bound))
    (unmet : (scope, name) ∉ pass.resolving)
    (ran : recurse bound { pass with resolving := (scope, name) :: pass.resolving } =
      (.ok result, { pass with resolving := (scope, name) :: pass.resolving })) :
    reduceName recurse name pass = (.ok result, pass) := by
  have restored : ((scope, name) :: pass.resolving).filter
      (fun other => other != (scope, name)) = pass.resolving := by
    rw [List.filter_cons_of_neg (by simp)]
    refine List.filter_eq_self.mpr fun other member => ?_
    simp only [bne_iff_ne, ne_eq]
    rintro rfl
    exact unmet member
  simp only [reduceName, PassM.bind_run, PassM.view, PassM.inspect, entered, read,
    List.contains_iff_mem, unmet, if_false,
    PassM.whileResolving, ran, restored]

/-- A chain of names comes to its last name, where that is met again. -/
theorem Reduction.reduceName_of_leadsTo [TicketSource σ]
    (leads : base.LeadsTo scope last name others)
    (reads : ∃ found, base.lookup scope last = .ok found)
    (safe : base.Safe scope) (preserves : base.Preserves pass.arena)
    (entered : pass.scope = scope) (distinct : (name :: others).Nodup)
    (unmet : ∀ other ∈ name :: others, (scope, other) ∉ pass.resolving)
    (again : last = name ∨ (scope, last) ∈ pass.resolving)
    (enough : others.length < depth) :
    reduceName (reduce depth) name pass = (.ok [.name last], pass) := by
  have opened (depth : Nat) (term : Term) :
      reduce (σ := σ) (depth + 1) [term] = reduceTerm (reduce depth) term :=
    PassM.joinMap_singleton _ _
  obtain ⟨depth, rfl⟩ : ∃ less, depth = less + 1 := ⟨depth - 1, by omega⟩
  -- none of the names still to come is being resolved, and the last one is
  -- where it is met again
  induction leads generalizing pass depth with
  | @back name renames =>
      refine reduceName_of_still entered (preserves.lookup safe renames)
        (unmet name List.mem_cons_self) ?_
      refine (congrFun (opened _ _) _).trans ?_
      obtain ⟨found, read⟩ := reads
      have read := preserves.lookup safe read
      cases found with
      | none => exact reduceName_of_free entered read
      | some _ =>
          refine reduceName_of_met entered read
            (List.mem_cons.mpr (again.imp (fun same => ?_) id))
          rw [same]
  | @on name next rest renames leads ih =>
      obtain ⟨apart, distinct⟩ := List.nodup_cons.mp distinct
      obtain ⟨depth, rfl⟩ : ∃ less, depth = less + 1 :=
        ⟨depth - 1, by simp at enough; omega⟩
      refine reduceName_of_still entered (preserves.lookup safe renames)
        (unmet name List.mem_cons_self) ?_
      refine (congrFun (opened _ _) _).trans ?_
      refine @ih { pass with resolving := (scope, name) :: pass.resolving }
        preserves entered distinct (fun other inside met => ?_) (.inr ?_) depth
        (Nat.lt_of_succ_lt_succ enough)
      · rcases List.mem_cons.mp met with same | before
        · exact apart ((Prod.mk.inj same).2 ▸ inside)
        · exact unmet other (List.mem_cons_of_mem _ inside) before
      · exact again.elim (fun same => same ▸ List.mem_cons_self) (List.mem_cons_of_mem _)

theorem Reduction.reduceName_of_openWithin [TicketSource σ]
    (opens : base.OpenWithin within scope name) (safe : base.Safe scope)
    (preserves : base.Preserves pass.arena) (entered : pass.scope = scope)
    (free : pass.resolving = []) (enough : within ≤ depth) :
    reduceName (reduce depth) name pass = (.ok [.name name], pass) := by
  rcases opens with unbound | ⟨others, short, distinct, leads⟩
  · exact reduceName_of_free entered (preserves.lookup safe unbound)
  · have reads : ∃ found, base.lookup scope name = .ok found := by
      cases leads with
      | back renames => exact ⟨_, renames⟩
      | on renames _ => exact ⟨_, renames⟩
    exact reduceName_of_leadsTo leads reads safe preserves entered distinct
      (fun _ _ met => by simp [free] at met) (.inl rfl)
      (Nat.lt_of_lt_of_le short enough)

end Names

section Copies

open PassM Arena

/-- What the pass meets was left before, and is left again. -/
structure Visit.Rests (known : TicketId → Nat → Option Compound) (within : Nat)
    (base : Arena) (visit : Visit) : Prop where
  left : visit.term.Left known
  opens : ∀ name, visit.term = .name name → base.OpenWithin within visit.scope name
  spent : ∀ apply : Apply, visit.term = apply.toTerm → apply.Spent

structure Tour.Rests (known : TicketId → Nat → Option Compound) (within : Nat)
    (base : Arena) (tour : Tour) : Prop where
  visits : ∀ visit ∈ tour.visits, visit.Rests known within base
  safe : ∀ slot, tour.Names slot → base.Safe slot

/-- The pass is in this scope, resolves no name, knows what is known, and has
what was there before. -/
structure Pass.Revisits [TicketSource σ] (known : TicketId → Nat → Option Compound)
    (base : Arena) (scope : BlockId) (pass : Pass σ) : Prop where
  knows : TicketSource.Knows known pass.source
  sound : pass.arena.Sound
  preserves : base.Preserves pass.arena
  free : pass.resolving = []
  entered : pass.scope = scope

variable {base : Arena} {within depth : Nat} {first second tour further : Tour}
  {pass : Pass σ} {arena : Arena} {made : List (BlockId × BlockId)}
  {entered scope slot : BlockId}

theorem Tour.rests_append :
    (first ++ second).Rests known within base ↔
      first.Rests known within base ∧ second.Rests known within base := by
  constructor
  · exact fun rests =>
      ⟨⟨fun visit met => rests.visits visit (List.mem_append_left _ met),
        fun slot names => rests.safe slot (Tour.names_append.mpr (.inl names))⟩,
      ⟨fun visit met => rests.visits visit (List.mem_append_right _ met),
        fun slot names => rests.safe slot (Tour.names_append.mpr (.inr names))⟩⟩
  · exact fun ⟨front, back⟩ =>
      ⟨fun visit met => (List.mem_append.mp met).elim (front.visits visit) (back.visits visit),
        fun slot names => (Tour.names_append.mp names).elim (front.safe slot) (back.safe slot)⟩

variable [TicketSource σ]

/-- The source has only been read, and still knows these outputs and no others. -/
structure TicketSource.Reread (known : TicketId → Nat → Option Compound)
    (before after : σ) : Prop where
  reads : TicketSource.Reads before after
  knows : TicketSource.Knows known after

variable {later : σ}

theorem Pass.Revisits.unread (revisits : pass.Revisits known base scope) :
    TicketSource.Reread known pass.source pass.source :=
  ⟨.refl, revisits.knows⟩

theorem Pass.Revisits.after (revisits : pass.Revisits known base scope)
    (makes : base.Makes pass.arena arena made)
    (reread : TicketSource.Reread known pass.source later) :
    ({ pass with arena, source := later } : Pass σ).Revisits known base scope :=
  { revisits with
    knows := reread.knows, sound := makes.sound,
    preserves := revisits.preserves.trans makes.preserves }

/-- In a pass that is in the one scope, the action comes to a copy of what the way in the
other scope leads through. The source is only read. -/
def PassM.Copies {α : Type} (known : TicketId → Nat → Option Compound) (base : Arena)
    (relabel : (BlockId → BlockId) → α → α) (tours : Arena → BlockId → α → Tour → Prop)
    (entered scope : BlockId) (original : α) (tour : Tour) (action : PassM σ α) : Prop :=
  ∀ pass : Pass σ, pass.Revisits known base entered → ∃ made arena source copy,
    action pass = (.ok copy, { pass with arena, source }) ∧
      TicketSource.Reread known pass.source source ∧ base.Makes pass.arena arena made ∧
      Twin base relabel (tours arena) made scope original tour copy

variable {α β γ δ : Type} {relabel : (BlockId → BlockId) → α → α}
  {relabels : (BlockId → BlockId) → β → β} {rename : (BlockId → BlockId) → γ → γ}
  {renamed : (BlockId → BlockId) → δ → δ}
  {tours : Arena → BlockId → α → Tour → Prop}
    {toursToo : Arena → BlockId → β → Tour → Prop}
    {toured : Arena → BlockId → γ → Tour → Prop}
    {visited : Arena → BlockId → δ → Tour → Prop} {final : δ} {way : Tour} {original : α}
    {originalToo : β} {action : PassM σ α} {other : PassM σ β}

/-- An action that leaves everything as it is comes to a copy if its value is one. -/
theorem copies_still
    (ends : ∀ pass : Pass σ, pass.Revisits known base entered →
      action pass = (.ok original, pass))
    (twin : ∀ arena, Twin base relabel (tours arena) [] scope original tour original) :
    Copies known base relabel tours entered scope original tour action :=
  fun pass revisits =>
    ⟨[], pass.arena, pass.source, original, ends pass revisits, revisits.unread,
      makes_nil revisits.sound, twin _⟩

namespace PassM.Copies

/-- Two copies one after the other, and a whole that is built of them. -/
theorem both (whole : α → β → γ) (build : γ → δ) {next : α → PassM σ δ}
    (first : Copies known base relabel tours entered scope original tour action)
    (second : Copies known base relabels toursToo entered scope originalToo further other)
    (continues : ∀ copy, (∃ number, relabel number copy = original) →
      ∃ last, next copy = other >>= last ∧
      ∀ copyToo, (∃ number, rename number (whole copy copyToo) = whole original originalToo) →
        ∀ pass : Pass σ, last copyToo pass = (.ok (build (whole copy copyToo)), pass))
    (renames : ∀ number copy copyToo,
      rename number (whole copy copyToo) =
        whole (relabel number copy) (relabels number copyToo))
    (lasting : ∀ {before after : Arena} {scope : BlockId} {copy : α} {tour : Tour},
      before.Preserves after → tours before scope copy tour → tours after scope copy tour)
    (joins : ∀ arena scope copy copyToo front back, tours arena scope copy front → toursToo
      arena scope copyToo back → toured arena scope (whole copy copyToo) (front ++ back))
    (built : ∀ arena made copy, (∃ number, rename number copy = whole original originalToo) →
      Twin base rename (toured arena) made scope (whole original originalToo) (tour ++ further)
        copy → Twin base renamed (visited arena) made scope final way (build copy)) :
    Copies known base renamed visited entered scope final way (action >>= next) := by
  intro pass revisits
  obtain ⟨made, middle, told, copy, ran, reread, makes, firstTwin⟩ := first pass revisits
  obtain ⟨more, arena, source, copyToo, ranToo, rereadToo, makesToo, twinToo⟩ :=
    second _ (revisits.after makes reread)
  have makes := makes.trans makesToo
  have twin : Twin base rename (toured arena) (made ++ more) scope
      (whole original originalToo) (tour ++ further) (whole copy copyToo) :=
    (firstTwin.mono fun other tour => lasting makesToo.preserves).both twinToo
      (fun number => renames number _ _)
      fun scope front back => joins arena scope copy copyToo front back
  obtain ⟨number, undoes⟩ := makes.undone revisits.preserves
  have back := twin.undone number undoes
  obtain ⟨last, same, ends⟩ :=
    continues copy ⟨number, firstTwin.undone number undoes.left⟩
  refine ⟨made ++ more, arena, source, build (whole copy copyToo),
    bind_ok_iff.mpr ⟨copy, _, ran, ?_⟩, ⟨reread.reads.trans rereadToo.reads,
    rereadToo.knows⟩, makes, built arena _ _ ⟨number, back⟩ twin⟩
  rw [same]
  exact bind_ok_iff.mpr ⟨copyToo, _, ranToo, ends copyToo ⟨number, back⟩ _⟩

/-- Two copies one after the other, put together. -/
theorem pair (whole : α → β → γ)
    (first : Copies known base relabel tours entered scope original tour action)
    (second : Copies known base relabels toursToo entered scope originalToo further other)
    (renames : ∀ number copy copyToo,
      rename number (whole copy copyToo) =
        whole (relabel number copy) (relabels number copyToo))
    (lasting : ∀ {before after : Arena} {scope : BlockId} {copy : α} {tour : Tour},
      before.Preserves after → tours before scope copy tour → tours after scope copy tour)
    (joins : ∀ arena scope copy copyToo front
      back, tours arena scope copy front → toursToo arena scope copyToo back →
      toured arena scope (whole copy copyToo) (front ++ back)) :
    Copies known base rename toured entered scope
      (whole original originalToo) (tour ++ further)
      (action >>= fun copy => other >>= fun copyToo => pure (whole copy copyToo)) :=
  first.both whole id second
    (fun _ _ => ⟨_, rfl, fun _ _ _ => rfl⟩) renames lasting joins fun _ _ _ _ twin => twin

theorem unseen
    (copies : Copies known base relabel tours entered scope original tour action) :
    Copies known base relabel
      (fun _ _ _ tour => tour = {}) entered scope original {} action := by
  intro pass revisits
  obtain ⟨made, arena, source, copy, ran, reread, makes, twin⟩ := copies pass revisits
  exact ⟨made, arena, source, copy, ran, reread, makes, twin.unseen⟩

end PassM.Copies

end Copies

section Cases

open PassM Arena

variable [TicketSource σ] {base : Arena} {within depth : Nat} {tour : Tour}
  {entered scope slot : BlockId} {block : Block}
  {recurse : Compound → PassM σ Compound}

/-- Compounds come to copies, whatever scope they are met in. -/
def Copying (known : TicketId → Nat → Option Compound) (base : Arena) (within depth : Nat)
    (recurse : Compound → PassM σ Compound) :
    Prop :=
  ∀ scope terms tour, base.Tours depth scope terms tour →
    tour.Rests known within base → base.Safe scope → Copies known base Compound.relabel
    (fun arena => arena.Tours depth) scope scope terms tour (recurse terms)

theorem Copying.mapEntries (copying : Copying known base within depth recurse)
    {bindings : Bindings} (toured : base.Tours depth scope bindings.values.flatten tour)
    (rests : tour.Rests known within base) (safe : base.Safe scope) :
    Copies known base Bindings.relabel
      (fun arena scope bindings => arena.Tours depth scope bindings.values.flatten) scope
      scope bindings tour (mapEntries recurse bindings) := by
  induction bindings generalizing tour with
  | nil =>
      obtain ⟨rfl, way⟩ := toured.eq_empty
      exact copies_still (fun _ _ => rfl) fun arena => twin_empty (fun _ => rfl) (way arena)
  | cons binding rest ih =>
      obtain ⟨name, value⟩ := binding
      obtain ⟨front, back, rfl, here, later⟩ := tours_append.mp toured
      obtain ⟨first, last⟩ := Tour.rests_append.mp rests
      exact (copying scope value front here first safe).pair
        (fun head tail => (name, head) :: tail) (ih later last) (fun _ _ _ => rfl)
        (fun preserves way => way.preserved preserves)
        fun _ _ _ _ _ _ here later => tours_append.mpr ⟨_, _, rfl, here, later⟩

theorem Copying.joinMap {f : Term → PassM σ Compound} {terms : Compound}
    (toured : base.Tours (depth + 1) scope terms tour)
    (rests : tour.Rests known within base)
    (each : ∀ term here, TermTour (base.Tours depth) base scope term here →
      here.Rests known within base →
      Copies known base Compound.relabel
        (fun arena => arena.Tours (depth + 1)) scope scope [term] here (f term)) :
    Copies known base Compound.relabel (fun arena => arena.Tours (depth + 1)) scope scope
      terms tour (PassM.joinMap f terms) := by
  change Strung _ terms tour at toured
  induction toured with
  | nil =>
      exact copies_still (fun _ _ => rfl) fun arena => twin_empty (fun _ => rfl) fun _ => .nil
  | @cons term rest here later first _ ih =>
      obtain ⟨restsHere, restsLater⟩ := Tour.rests_append.mp rests
      exact (each term here first restsHere).pair (fun head tail => head ++ tail)
        (ih restsLater) (fun _ _ _ => List.map_append)
        (fun preserves way => way.preserved preserves)
        fun _ _ _ _ _ _ here later => tours_append.mpr ⟨_, _, rfl, here, later⟩

/-- A placeholder that there is no output for stays. -/
theorem copies_ticket (literal : TicketSource.Literal (TicketSource.Knows (σ := σ) known))
    {placeholder : Placeholder}
    (missing : known placeholder.ticket placeholder.channel = none) :
    Copies known base Compound.relabel (fun arena => arena.Tours (depth + 1)) scope scope
      [.ticket placeholder] { visits := [⟨scope, .ticket placeholder⟩] }
      (Reduction.resolve (σ := σ) placeholder) := by
  intro pass revisits
  have waits :
      TicketSource.output? pass.source placeholder.ticket placeholder.channel = none :=
    (revisits.knows _ _).trans missing
  have ran : Reduction.resolve placeholder pass = (.ok [.ticket placeholder],
      { pass with
        source := (TicketSource.read pass.source placeholder.ticket placeholder.channel).2 }) := by
    rw [Reduction.resolve_run, waits, Option.getD_none]
  exact ⟨[], pass.arena, _, _, ran,
    ⟨.single ⟨_, _, rfl⟩, literal.read revisits.knows⟩, makes_nil revisits.sound,
    (twin_plain rfl fun block named => absurd named List.not_mem_nil).alone⟩

/-- A term that a pass goes no further into stays. -/
theorem copies_plain {term : Term}
    (plain : term.isPlain = true) {action : PassM σ Compound}
    (rests : Tour.Rests known within base { visits := [⟨scope, term⟩], held := term.blocks })
    (ends : ∀ pass : Pass σ, pass.Revisits known base scope →
      action pass = (.ok [term], pass)) :
    Copies known base Compound.relabel
      (fun arena => arena.Tours (depth + 1)) scope scope [term]
      { visits := [⟨scope, term⟩], held := term.blocks } action :=
  copies_still ends
    fun _ => (twin_plain plain fun block named => rests.safe block (.inr named)).alone

theorem Copying.reduceOutput (copying : Copying known base within depth recurse)
    (cond : Cond) {output : String} {value : Compound}
    (live : base.Live slot block) (stored : block.get? output = some value)
    (toured : base.Tours depth slot value tour) (rests : tour.Rests known within base)
    (safe : base.Safe slot) :
    Copies known base Compound.relabel (fun arena => arena.Tours depth) entered slot value
      tour (Reduction.reduceOutput recurse cond slot output) := by
  intro pass revisits
  have read : pass.arena.getLocal slot output = .ok (some value) := by
    rw [getLocal, get_ok (revisits.preserves.live live).1, Except.map, stored]
  obtain ⟨made, arena, source, copy, ran, reread, makes, twin⟩ :=
    copying slot value tour toured rests safe (enter slot pass)
      { revisits with entered := rfl }
  refine ⟨made, arena, source, copy, ?_, reread, makes, twin⟩
  simp only [Reduction.reduceOutput, bind_run, inspect, read, Reduction.require,
    pure_run, inScope, ran]
  rfl

/-- What each name is bound to is part of what is declared. -/
theorem Arena.Tours.declared {names : List String} {name : String}
    {value : Compound} (toured : base.Tours depth scope (block.declared names) tour)
    (rests : tour.Rests known within base) (among : name ∈ names)
    (stored : block.get? name = some value) :
    ∃ part, base.Tours depth scope value part ∧ part.Rests known within base := by
  have inside := List.mem_dedup.mpr among
  rw [Block.declared] at toured
  generalize names.dedup = once at toured inside
  induction once generalizing tour with
  | nil => exact absurd inside List.not_mem_nil
  | cons first rest ih =>
      rw [List.flatMap_cons] at toured
      obtain ⟨front, back, rfl, here, later⟩ := tours_append.mp toured
      obtain ⟨restsHere, restsLater⟩ := Tour.rests_append.mp rests
      rcases List.mem_cons.mp inside with rfl | behind
      · exact ⟨front, by simpa [stored] using here, restsHere⟩
      · exact ih restsLater later behind

theorem Copying.reduceOutputs (copying : Copying known base within depth recurse)
    (cond : Cond) {names : List String} (live : base.Live slot block)
    (bound : ∀ name ∈ names, ∃ value, block.get? name = some value)
    (toured : base.Tours depth slot (block.declared names) tour)
    (rests : tour.Rests known within base) (safe : base.Safe slot) :
    Copies known base Bindings.relabel
      (fun arena scope results tour => OrderedMap.keys results = names ∧
        ∀ block : Block, arena.Tours depth scope ((block.rebind results).declared names) tour)
      entered slot (names.map fun name => (name, (block.get? name).getD [])) tour
      (Reduction.reduceOutputs recurse cond slot names) := by
  induction names generalizing tour with
  | nil =>
      obtain ⟨rfl, way⟩ := toured.eq_empty
      exact copies_still (fun _ _ => rfl) fun arena =>
        twin_empty (fun _ => rfl) fun scope => ⟨rfl, fun _ => way arena scope⟩
  | cons name names ih =>
      obtain ⟨⟨value, stored⟩, others⟩ := List.forall_mem_cons.mp bound
      have original : (block.get? name).getD [] = value := by
        rw [stored, Option.getD_some]
      rw [List.map_cons, original]
      -- the value of an output that is declared once more is copied too, but bound over
      by_cases again : name ∈ names
      · have same : block.declared (name :: names) = block.declared names := by
          rw [Block.declared, List.dedup_cons_of_mem again, Block.declared]
        rw [same] at toured
        obtain ⟨part, way, resting⟩ := toured.declared rests again stored
        exact (copying.reduceOutput cond live stored way resting safe).unseen.pair
          (fun head tail => (name, head) :: tail) (ih others toured rests) (fun _ _ _ => rfl)
          (fun _ => id) fun arena scope copy copyToo front back unseen later =>
            ⟨congrArg _ later.1, fun found => by
            rw [unseen, Tour.nil_append, Block.declared_rebind_of_mem again]
            exact later.2 _⟩
      · have split : block.declared (name :: names) = value ++ block.declared names := by
          rw [Block.declared, List.dedup_cons_of_notMem again, List.flatMap_cons,
            original, Block.declared]
        rw [split] at toured
        obtain ⟨front, back, rfl, here, later⟩ := tours_append.mp toured
        obtain ⟨restsHere, restsLater⟩ := Tour.rests_append.mp rests
        exact (copying.reduceOutput cond live stored here restsHere safe).pair
          (fun head tail => (name, head) :: tail) (ih others later restsLater)
          (fun _ _ _ => rfl) (fun preserves way => way.preserved preserves)
          fun arena scope copy copyToo front back here later =>
            ⟨congrArg _ later.1, fun found => by
            rw [Block.declared_rebind_of_not_mem again later.1]
            exact tours_append.mpr ⟨_, _, rfl, here, later.2 _⟩⟩

/-- The way through a branch, whatever scope the conditional is met in. -/
abbrev Arena.BranchTours (prototype : Prototype) (depth : Nat) (arena : Arena)
    (_ slot : BlockId) : Tour → Prop :=
  BranchTour (arena.Tours depth) arena prototype slot

theorem Copying.residualBranch (copying : Copying known base within depth recurse)
    {cond : Cond} (branch : BranchTour (base.Tours depth) base cond.prototype slot tour)
    (rests : tour.Rests known within base) :
    Copies known base (fun number slot => number slot)
      (BranchTours cond.prototype depth) entered scope slot tour
      (Reduction.residualBranch recurse cond slot) := by
  obtain @⟨block, outputs, live, bound, toured⟩ := branch
  obtain ⟨inside, here⟩ := Tour.rests_append.mp rests
  have safe : base.Safe slot := here.safe slot (.inl List.mem_cons_self)
  intro pass revisits
  obtain ⟨made, arena, source, results, ran, reread, makes, twin⟩ :=
    copying.reduceOutputs cond live bound toured inside safe pass revisits
  have preserves := revisits.preserves.trans makes.preserves
  have extends_ := makes.sound.insert block
  obtain ⟨last, rebound, whole⟩ := extends_.bindAll results
  have cloned : arena.cloneBlock slot = .ok (arena.insert block) :=
    cloneBlock_of_block? (preserves.live live).1
  -- each output is bound to a copy of what it was bound to, so going back gives the original
  have undone {number : BlockId → BlockId} (undoes : base.Undoes made number) :
      (block.rebind results).relabel number = block := by
    refine Block.relabel_rebind (undoes.keeps safe live) fun entry member => ?_
    have copied :
        (entry.1, Compound.relabel number entry.2) ∈ Bindings.relabel number results :=
      List.mem_map.mpr ⟨entry, member, rfl⟩
    rw [twin.undone number undoes] at copied
    obtain ⟨name, among, same⟩ := List.mem_map.mp copied
    obtain ⟨rfl, same⟩ := Prod.mk.inj same
    obtain ⟨value, stored⟩ := bound entry.1 among
    rw [← same, stored, Option.getD_some]
  refine ⟨made ++ [((arena.insert block).1, slot)], last, source, (arena.insert block).1,
    ?_, reread, makes.extend whole fun number undoes => (undone undoes.left).symm ▸ live,
    fun number undoes => ?_, fun other => ?_⟩
  · refine bind_ok_iff.mpr ⟨results, _, ran, ?_⟩
    simp only [bind_run, build, cloned, rebound, Except.map, pure_run]
  · exact undoes.made _ (List.mem_append_right _ List.mem_cons_self)
  · obtain ⟨again, ⟨keys, way⟩, within, back⟩ := twin.toured (arena.insert block).1
    have named : ∀ name ∈ OrderedMap.keys results, name ∈ cond.prototype.outputs :=
      fun name among => keys ▸ among
    have held : (block.rebind results).held cond.prototype.outputs =
        block.held cond.prototype.outputs :=
      Block.held_rebind named bound
    refine ⟨again ++
      { copied := [(arena.insert block).1], held := block.held cond.prototype.outputs },
      ?_, ?_, fun number undoes _ => ?_⟩
    · rw [← held]
      exact .through whole.live
        (fun output declared => Block.bound_rebind (.inl (keys ▸ declared)))
        ((way block).preserved whole.preserving)
    · rw [List.map_append]
      exact within.append (List.Sublist.refl _)
    · have same : number (arena.insert block).1 = slot :=
        undoes.made _ (List.mem_append_right _ List.mem_cons_self)
      rw [Tour.relabel_append, back number undoes.left same, Tour.relabel,
        List.map_singleton, same]
      rfl

/-- Parts of a term, met one after the other. -/
abbrev Arena.ToursBoth {α β : Type} (first : BlockId → α → Tour → Prop)
    (second : BlockId → β → Tour → Prop) (scope : BlockId)
    (parts : α × β) (tour : Tour) : Prop :=
  ∃ front back, tour = front ++ back ∧ first scope parts.1 front ∧
    second scope parts.2 back

theorem Copying.reduceCond (copying : Copying known base within depth recurse)
    (cond : Cond) {conditions thens elses : Tour}
    (toured : base.Tours depth scope cond.condition conditions)
    (inThen : BranchTour (base.Tours depth) base cond.prototype cond.thenBlock thens)
    (inElse : BranchTour (base.Tours depth) base cond.prototype cond.elseBlock elses)
    (rests : Tour.Rests known within base
      (.visit scope cond.toTerm ++ (conditions ++ (thens ++ elses))))
    (safe : base.Safe scope) :
    Copies known base Compound.relabel (fun arena => arena.Tours (depth + 1)) scope scope
      [cond.toTerm] (.visit scope cond.toTerm ++ (conditions ++ (thens ++ elses)))
      (Reduction.reduceCond recurse cond) := by
  obtain ⟨here, parts⟩ := Tour.rests_append.mp rests
  obtain ⟨inCondition, branches⟩ := Tour.rests_append.mp parts
  obtain ⟨restsThen, restsElse⟩ := Tour.rests_append.mp branches
  obtain ⟨undecided, output, declared⟩ : Compound.isNormal cond.condition = false ∧
      ∃ output, cond.prototype.output? cond.channel = some output := by
    have left := (here.visits _ List.mem_cons_self).left
    cases left with
    | cond undecided declared => exact ⟨undecided, _, declared⟩
  have pair : Copies known base
      (fun number (slots : BlockId × BlockId) => (number slots.1, number slots.2))
      (fun arena => ToursBoth (BranchTours cond.prototype depth arena)
        (BranchTours cond.prototype depth arena)) scope scope
      (cond.thenBlock, cond.elseBlock) (thens ++ elses)
      (Reduction.residualBranch recurse cond cond.thenBlock >>=
        fun thenBlock => Reduction.residualBranch recurse cond cond.elseBlock >>=
          fun elseBlock => pure (thenBlock, elseBlock)) :=
    (copying.residualBranch inThen restsThen).pair Prod.mk
      (copying.residualBranch inElse restsElse) (fun _ _ _ => rfl)
      (fun preserves branch =>
        branch.mono (fun _ => preserves.live) fun _ _ _ _ way => way.preserved preserves)
      fun _ _ _ _ front back first second => ⟨front, back, rfl, first, second⟩
  let build (parts : Compound × BlockId × BlockId) : Term :=
    Cond.toTerm
      { cond with condition := parts.1, thenBlock := parts.2.1, elseBlock := parts.2.2 }
  have built (arena : Arena) (made : List (BlockId × BlockId))
      (copy : Compound × BlockId × BlockId) (twin : Twin base
        (fun number (parts : Compound × BlockId × BlockId) =>
          (Compound.relabel number parts.1, number parts.2.1, number parts.2.2))
        (ToursBoth (arena.Tours depth)
          (ToursBoth (BranchTours cond.prototype depth arena)
            (BranchTours cond.prototype depth arena)))
        made scope (cond.condition, cond.thenBlock, cond.elseBlock)
        (conditions ++ (thens ++ elses)) copy) :
      Twin base Compound.relabel (arena.Tours (depth + 1)) made scope [cond.toTerm]
        (.visit scope cond.toTerm ++ (conditions ++ (thens ++ elses))) [build copy] := by
    have visits (scope : BlockId) (again : Tour)
        (way : ToursBoth (arena.Tours depth) (ToursBoth
        (BranchTours cond.prototype depth arena) (BranchTours cond.prototype depth arena))
          scope copy again) :
        TermTour (arena.Tours depth) arena scope (build copy)
          (.visit scope (build copy) ++ again) := by
      obtain ⟨front, back, rfl, inCondition, first, second, rfl, inThen, inElse⟩ := way
      exact .cond inCondition inThen inElse
    exact (twin.visited build (fun number => Term.relabel_cond) visits).alone
  refine (copying scope cond.condition conditions toured inCondition safe).both
    (fun condition slots => (condition, slots)) (fun parts => [build parts]) pair
    (fun copy same => ⟨fun slots => pure [build (copy, slots)], ?_, fun _ _ _ => rfl⟩) ?_
    ?_ ?_ fun arena made copy _ => built arena made copy
  · obtain ⟨number, same⟩ := same
    have open_ : Compound.isNormal copy = false := by
      rwa [← same, Compound.isNormal_relabel] at undecided
    have chosen : Reduction.decide? cond copy = none := by
      unfold Reduction.decide?
      cases copy with
      | nil => simp [Compound.isNormal] at open_
      | cons => simp [open_]
    simp only [declared, Reduction.require, chosen, pure_bind, bind_assoc, build]
  · exact fun _ _ _ => rfl
  · exact fun preserves way => way.preserved preserves
  · exact fun _ _ _ _ front back first second => ⟨front, back, rfl, first, second⟩

theorem Apply.toTerm_injective : Function.Injective Apply.toTerm := by
  intro apply other same
  obtain ⟨task, bindings, channel, rest⟩ := Term.apply.inj same
  exact congr (congr (congr (congrArg Apply.mk task) bindings) channel) rest

theorem Term.Left.of_apply {apply : Apply} (left : apply.toTerm.Left known) :
    apply.Kept ∨ ∃ lambda, apply.Called lambda := by
  generalize whole : apply.toTerm = term at left
  cases left with
  | kept kept => exact .inl (Apply.toTerm_injective whole ▸ kept)
  | called called => exact .inr ⟨_, Apply.toTerm_injective whole ▸ called⟩
  | _ => exact Term.noConfusion whole

/-- An application of which nothing is left to be expanded comes to itself. -/
theorem Reduction.expand_still {apply : Apply}
    (left : apply.Kept ∨ ∃ lambda, apply.Called lambda) (spent : apply.Spent)
    (pass : Pass σ) :
    PassM.joinMap (reducePart recurse) apply.expand pass = (.ok [apply.toTerm], pass) := by
  have kept (kept : apply.Kept) :
      PassM.joinMap (reducePart recurse) apply.expand pass = (.ok [apply.toTerm], pass) := by
    rw [kept, joinMap_singleton]
    rfl
  rcases spent with stays | ⟨invocation, single, rfl⟩
  · exact kept stays
  · rcases left with stays | ⟨lambda, called⟩
    · exact kept stays
    · have task : invocation.lambda = .foreign lambda :=
        Term.lambda.inj (List.singleton_injective called.task)
      obtain ⟨output, declared⟩ := called.output
      have offered : (Lambda.foreign lambda).prototype.output? invocation.channel =
          some output := declared
      rw [Apply.expand_toApply single, joinMap_singleton, reducePart, reduceInvocation]
      simp only [task, offered, require, pure_bind, called.waiting,
        Bool.false_eq_true, if_false]
      rfl

theorem Copying.reduceApply (copying : Copying known base within depth recurse)
    (apply : Apply) {tasks arguments : Tour}
    (toured : base.Tours depth scope apply.task tasks)
    (bound : base.Tours depth scope apply.bindings.values.flatten arguments)
    (rests : Tour.Rests known within base (.visit scope apply.toTerm ++ (tasks ++ arguments)))
    (safe : base.Safe scope) :
    Copies known base Compound.relabel (fun arena => arena.Tours (depth + 1)) scope scope
      [apply.toTerm] (.visit scope apply.toTerm ++ (tasks ++ arguments))
      (Reduction.reduceApply recurse apply) := by
  obtain ⟨here, parts⟩ := Tour.rests_append.mp rests
  obtain ⟨inTask, inArguments⟩ := Tour.rests_append.mp parts
  have here := here.visits _ List.mem_cons_self
  have left := Term.Left.of_apply here.left
  have spent := here.spent apply rfl
  have built (arena : Arena) (made : List (BlockId × BlockId)) (copy : Apply)
      (twin : Twin base Apply.relabel
        (fun scope apply tour => ToursBoth (arena.Tours depth) (arena.Tours depth) scope
          (apply.task, apply.bindings.values.flatten) tour)
        made scope apply (tasks ++ arguments) copy) :
      Twin base Compound.relabel (arena.Tours (depth + 1)) made scope [apply.toTerm]
        (.visit scope apply.toTerm ++ (tasks ++ arguments)) [copy.toTerm] := by
    refine (twin.visited Apply.toTerm (fun number => Apply.relabel_toTerm) ?_).alone
    rintro scope again ⟨front, back, rfl, inTask, inArguments⟩
    exact .apply inTask inArguments
  refine (copying scope apply.task tasks toured inTask safe).both
    (fun task bindings => { apply with task, bindings }) (fun apply => [apply.toTerm])
    (copying.mapEntries bound inArguments safe)
    (fun copy _ => ⟨_, rfl, fun copyToo same pass => ?_⟩) ?_ ?_ ?_
    fun arena made copy _ => built arena made copy
  · obtain ⟨number, same⟩ : ∃ number,
        Apply.relabel number ⟨copy, copyToo, apply.channel, apply.rest⟩ = apply := same
    rw [← same] at left spent
    exact Reduction.expand_still
      (left.imp Apply.kept_of_relabel fun ⟨lambda, called⟩ => ⟨lambda, called.of_relabel⟩)
      (Apply.spent_of_relabel spent) pass
  · exact fun _ _ _ => rfl
  · exact fun preserves way => way.preserved preserves
  · exact fun _ _ _ _ front back first second => ⟨front, back, rfl, first, second⟩

theorem Copying.reduceCurry (copying : Copying known base within depth recurse)
    {task : Term} {bindings : Bindings} {tasks arguments : Tour}
    (toured : base.Tours depth scope [task] tasks)
    (bound : base.Tours depth scope bindings.values.flatten arguments)
    (rests : Tour.Rests known within base
      (.visit scope (.curry (some [task]) bindings) ++ (tasks ++ arguments)))
    (safe : base.Safe scope) :
    Copies known base Compound.relabel (fun arena => arena.Tours (depth + 1)) scope scope
      [.curry (some [task]) bindings]
      (.visit scope (.curry (some [task]) bindings) ++ (tasks ++ arguments))
      (Reduction.reduceCurry recurse { task := some [task], bindings }) := by
  obtain ⟨here, parts⟩ := Tour.rests_append.mp rests
  obtain ⟨inTask, inArguments⟩ := Tour.rests_append.mp parts
  have open_ : task.isNormal = false := by
    have left := (here.visits _ List.mem_cons_self).left
    cases left with
    | curry open_ => exact open_
  let build (parts : Compound × Bindings) : Term := .curry (some parts.1) parts.2
  let rename (number : BlockId → BlockId)
      (parts : Compound × Bindings) : Compound × Bindings :=
    (Compound.relabel number parts.1, Bindings.relabel number parts.2)
  have single {copy : Compound} (same : ∃ number, Compound.relabel number copy = [task]) :
      ∃ only : Term, copy = [only] ∧ only.isNormal = false := by
    obtain ⟨number, same⟩ := same
    obtain ⟨only, rfl, here⟩ := List.map_eq_singleton_iff.mp same
    exact ⟨only, rfl, by rwa [← here, Term.isNormal_relabel] at open_⟩
  have built (arena : Arena) (made : List (BlockId × BlockId))
      (copy : Compound × Bindings)
      (same : ∃ number, rename number copy = ([task], bindings))
      (twin : Twin base rename
        (fun scope parts tour => ToursBoth (arena.Tours depth) (arena.Tours depth) scope
          (parts.1, parts.2.values.flatten) tour)
        made scope ([task], bindings) (tasks ++ arguments) copy) :
      Twin base Compound.relabel (arena.Tours (depth + 1)) made scope
        [.curry (some [task]) bindings]
        (.visit scope (.curry (some [task]) bindings) ++ (tasks ++ arguments))
        [build copy] := by
    refine (twin.visited build (fun number => Term.relabel_curry) ?_).alone
    rintro scope again ⟨front, back, rfl, inTask, inArguments⟩
    obtain ⟨only, alone, _⟩ := single (same.imp fun _ same => (Prod.mk.inj same).1)
    obtain ⟨first, arguments⟩ := copy
    obtain rfl : first = [only] := alone
    exact .curry inTask inArguments
  refine (copying scope [task] tasks toured inTask safe).both Prod.mk
    (fun parts => [build parts]) (copying.mapEntries bound inArguments safe)
    (fun copy same => ⟨_, rfl, fun copyToo _ pass => ?_⟩) ?_ ?_ ?_ built
  · obtain ⟨only, rfl, open_⟩ := single same
    cases only with
    | lambda => simp [Term.isNormal] at open_
    | _ => simp [Reduction.closeCurry, open_, build, Curry.toTerm]
  · exact fun _ _ _ => rfl
  · exact fun preserves way => way.preserved preserves
  · exact fun _ _ _ _ front back first second => ⟨front, back, rfl, first, second⟩

variable (literal : TicketSource.Literal (TicketSource.Knows (σ := σ) known))
include literal

theorem Copying.reduceTerm {term : Term}
    (copying : Copying known base within depth (Reduction.reduce (σ := σ) (depth + within)))
    (toured : TermTour (base.Tours depth) base scope term tour)
    (rests : tour.Rests known within base) (safe : base.Safe scope) :
    Copies known base Compound.relabel
      (fun arena => arena.Tours (depth + 1)) scope scope [term] tour
      (Reduction.reduceTerm (Reduction.reduce (σ := σ) (depth + within)) term) := by
  cases toured with
  | plain plain =>
      have visit := rests.visits _ List.mem_cons_self
      have left : term.Left known := visit.left
      cases left with
      | name name =>
          exact copies_plain plain rests
            fun pass revisits => Reduction.reduceName_of_openWithin (visit.opens name rfl)
              safe revisits.preserves revisits.entered
              revisits.free (Nat.le_add_left _ _)
      | ticket missing => exact copies_ticket literal missing
      | str | lambda | curries => exact copies_plain plain rests fun _ _ => rfl
      | kept | called | cond | curry => exact Bool.noConfusion plain
  | apply inTask inArguments =>
      exact copying.reduceApply ⟨_, _, _, _⟩ inTask inArguments rests safe
  | cond inCondition inThen inElse =>
      exact copying.reduceCond ⟨_, _, _, _, _⟩ inCondition inThen inElse rests safe
  | curry inTask inArguments => exact copying.reduceCurry inTask inArguments rests safe

theorem copying_reduce (depth : Nat) :
    Copying known base within depth (Reduction.reduce (σ := σ) (depth + within)) := by
  induction depth with
  | zero => exact fun _ _ _ toured => absurd toured id
  | succ depth ih =>
      intro scope terms tour toured rests safe
      rw [Nat.succ_add]
      exact Copying.joinMap toured rests fun term here way resting =>
        Copying.reduceTerm literal ih way resting safe

/-- All targets come to copies, each block made for one of them. -/
theorem copies_reduceTargets {targets : List Compound}
    (toured : base.Tours depth scope targets.flatten tour)
    (rests : tour.Rests known within base) (safe : base.Safe scope) :
    Copies known base (fun number => List.map (Compound.relabel number))
      (fun arena scope targets => arena.Tours depth scope targets.flatten)
      scope scope targets tour
      (Reduction.reduceTargets (σ := σ) (depth + within) targets) := by
  induction targets generalizing tour with
  | nil =>
      obtain ⟨rfl, way⟩ := toured.eq_empty
      exact copies_still (fun _ _ => rfl) fun arena => twin_empty (fun _ => rfl) (way arena)
  | cons target rest ih =>
      obtain ⟨front, back, rfl, here, later⟩ := tours_append.mp toured
      obtain ⟨restsHere, restsLater⟩ := Tour.rests_append.mp rests
      exact (copying_reduce literal depth scope target front here restsHere safe).pair
        (fun head tail => head :: tail) (ih later restsLater)
        (fun _ _ _ => rfl) (fun preserves way => way.preserved preserves)
        fun _ _ _ _ _ _ here later => tours_append.mpr ⟨_, _, rfl, here, later⟩

end Cases

end TicketFlow
