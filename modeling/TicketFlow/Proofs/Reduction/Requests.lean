import TicketFlow.Proofs.Reduction.Traversal

namespace TicketFlow

/-! What a pass does to the source of its tickets.

Whatever is reduced, and whatever comes of it, the source is only asked for
tickets, in the name of the query that the pass is for, and for their outputs.
-/

variable {σ : Type} [TicketSource σ]

/-- The source answers one call for the query: it grants a ticket, or is read. -/
inductive TicketSource.Serves (consumer : ConsumerId) (query : QueryId) :
    σ → σ → Prop where
  | grants {before after : σ} {apply : Apply} {placeholder : Placeholder} :
      TicketSource.request before consumer query apply = .ok (placeholder, after) →
      Serves consumer query before after
  | reads (before : σ) (id : TicketId) (channel : Nat) :
      Serves consumer query before (TicketSource.read before id channel).2

/-- The source has been read, any number of times, and was not asked for a ticket. -/
def TicketSource.Reads : σ → σ → Prop :=
  Relation.ReflTransGen fun before after =>
    ∃ id channel, after = (TicketSource.read before id channel).2

/-- The pass is for the query as before, and its source has answered calls since. -/
structure Pass.Asks (before after : Pass σ) : Prop where
  consumer : after.consumer = before.consumer
  query : after.query = before.query
  source :
    Relation.ReflTransGen (TicketSource.Serves before.consumer before.query)
      before.source after.source

namespace Pass

variable {first second third : Pass σ}

theorem Asks.of_eq (consumer : second.consumer = first.consumer)
    (query : second.query = first.query) (source : second.source = first.source) :
    first.Asks second :=
  ⟨consumer, query, source ▸ .refl⟩

theorem Asks.trans (left : first.Asks second) (right : second.Asks third) :
    first.Asks third where
  consumer := right.consumer.trans left.consumer
  query := right.query.trans left.query
  source := left.source.trans (left.consumer ▸ left.query ▸ right.source)

/-- Whatever a pass does, it asks for tickets and outputs at most. -/
theorem conservation_asks : Conservation (Asks : Pass σ → Pass σ → Prop) where
  refl _ := .of_eq rfl rfl rfl
  trans := .trans
  made _ _ := .of_eq rfl rfl rfl
  asked granted := ⟨rfl, rfl, .single (.grants granted)⟩
  read pass id channel := ⟨rfl, rfl, .single (.reads pass.source id channel)⟩
  entered asks := ⟨asks.consumer, asks.query, asks.source⟩
  resolved _ asks := ⟨asks.consumer, asks.query, asks.source⟩

end Pass

/-- Reducing a context asks its source for tickets and outputs, and
does nothing else to it. -/
theorem Context.serves_reduce (context : Context) (depth : Nat)
    (source : σ) (consumer : ConsumerId) (query : QueryId) :
    Relation.ReflTransGen (TicketSource.Serves consumer query) source
      (context.reduce depth source consumer query).source := by
  have asks := Pass.conservation_asks.reduceTargets depth context.targets
    (Pass.start consumer query source context.arena context.root)
  unfold Context.reduce
  split
  next passed =>
    rw [passed] at asks
    exact asks.source
  next passed =>
    rw [passed] at asks
    exact asks.source

end TicketFlow
