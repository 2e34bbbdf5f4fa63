import TicketFlow.Arena.Placeholders
import TicketFlow.Proofs.Arena.Slots
import TicketFlow.Proofs.Reduction.Combination

namespace TicketFlow

/-! Where placeholders stand, and where a pass of reduction has looked for them.

A pass looks into everything but curries of several tasks, which it leaves as
they are.  A term is settled once every placeholder that a pass can see in it
is one that has to wait.
-/

namespace Term

/-- A way from the term to a placeholder: through nested terms, the given outputs of
branches, and curries whose task may be entered. -/
inductive Shows (output : BlockId → String → Option Compound) (entered : Compound → Prop)
    (placeholder : Placeholder) : Term → Prop where
  | ticket : Shows output entered placeholder (.ticket placeholder)
  | task {task : Compound} {bindings : Bindings} {channel : Nat} {rest : Bool}
      {term : Term} : term ∈ task → Shows output entered placeholder term →
      Shows output entered placeholder (.apply task bindings channel rest)
  | argument {task : Compound} {bindings : Bindings} {channel : Nat} {rest : Bool}
      {term : Term} : BoundIn bindings term → Shows output entered placeholder term →
      Shows output entered placeholder (.apply task bindings channel rest)
  | condition {condition : Compound} {prototype : Prototype} {channel : Nat}
      {thenBlock elseBlock : BlockId} {term : Term} :
      term ∈ condition → Shows output entered placeholder term →
      Shows output entered placeholder (.cond condition prototype channel thenBlock elseBlock)
  | output {condition : Compound} {prototype : Prototype}
      {channel : Nat} {thenBlock elseBlock block : BlockId} {name : String}
      {value : Compound} {term : Term} :
      name ∈ prototype.outputs → block = thenBlock ∨ block = elseBlock →
      output block name = some value → term ∈ value →
      Shows output entered placeholder term →
      Shows output entered placeholder (.cond condition prototype channel thenBlock elseBlock)
  | curryTask {task : Compound} {bindings : Bindings} {term : Term} :
      entered task → term ∈ task → Shows output entered placeholder term →
      Shows output entered placeholder (.curry (some task) bindings)
  | curryBinding {task : Option Compound} {bindings : Bindings} {term : Term} :
      (∀ given, task = some given → entered given) →
      BoundIn bindings term → Shows output entered placeholder term →
      Shows output entered placeholder (.curry task bindings)

/-- The placeholder stands somewhere in the term itself. -/
def Occurs (placeholder : Placeholder) (term : Term) : Prop :=
  term.Shows (fun _ _ => none) (fun _ => True) placeholder

theorem Shows.mono {output more : BlockId → String → Option Compound}
    {entered : Compound → Prop} {placeholder : Placeholder} {term : Term}
    (known : ∀ {block name value term}, output block name = some value → term ∈ value →
      more block name = some value)
    (shows_ : term.Shows output entered placeholder) :
    term.Shows more entered placeholder := by
  induction shows_ with
  | ticket => exact .ticket
  | task inside _ ih => exact .task inside ih
  | argument bound _ ih => exact .argument bound ih
  | condition inside _ ih => exact .condition inside ih
  | output declared branch found inside _ ih =>
      exact .output declared branch (known found inside) inside ih
  | curryTask enters inside _ ih => exact .curryTask enters inside ih
  | curryBinding enters bound _ ih => exact .curryBinding enters bound ih

end Term

theorem Apply.occurs_iff {apply : Apply} {placeholder : Placeholder} :
    apply.toTerm.Occurs placeholder ↔
      ∃ term, (term ∈ apply.task ∨ BoundIn apply.bindings term) ∧
        term.Occurs placeholder := by
  constructor
  · intro occurs
    cases occurs with
    | task inside occurs => exact ⟨_, .inl inside, occurs⟩
    | argument bound occurs => exact ⟨_, .inr bound, occurs⟩
  · rintro ⟨term, inside | bound, occurs⟩
    · exact .task inside occurs
    · exact .argument bound occurs

namespace Arena

def output? (arena : Arena) (block : BlockId) (name : String) : Option Compound :=
  (arena.block? block).bind fun found => found.get? name

/-- A pass over the term meets the placeholder, or leaves it in what it has reduced. -/
def Exposes (arena : Arena) (placeholder : Placeholder) (term : Term) : Prop :=
  term.Shows arena.output? (fun task => task.length < 2) placeholder

/-- Every placeholder that a pass can see in the term is one that waits.  The branches of
conditionals are live blocks. -/
inductive Settled (arena : Arena) (waits : Placeholder → Prop) : Term → Prop where
  | str (value : String) : Settled arena waits (.str value)
  | lambda (value : Lambda) : Settled arena waits (.lambda value)
  | name (name : String) : Settled arena waits (.name name)
  | ticket {placeholder : Placeholder} :
      waits placeholder → Settled arena waits (.ticket placeholder)
  | apply {task : Compound} {bindings : Bindings} {channel : Nat} {rest : Bool} :
      (∀ term ∈ task, Settled arena waits term) →
      (∀ term, BoundIn bindings term → Settled arena waits term) →
      Settled arena waits (.apply task bindings channel rest)
  | cond {condition : Compound} {prototype : Prototype} {channel : Nat}
      {thenBlock elseBlock : BlockId} : (∀ term ∈ condition, Settled arena waits term) →
      (∀ block, block = thenBlock ∨ block = elseBlock → ∃ found, arena.Live block found) →
      (∀ block name value term, block = thenBlock ∨ block = elseBlock →
        name ∈ prototype.outputs → arena.output? block name = some value →
        term ∈ value → Settled arena waits term) →
      Settled arena waits (.cond condition prototype channel thenBlock elseBlock)
  | curry {task : Compound} {bindings : Bindings} :
      (∀ term ∈ task, Settled arena waits term) →
      (∀ term, BoundIn bindings term → Settled arena waits term) →
      Settled arena waits (.curry (some task) bindings)
  | several {task : Compound} {bindings : Bindings} :
      2 ≤ task.length → Settled arena waits (.curry (some task) bindings)

variable {arena after : Arena} {waits : Placeholder → Prop} {term : Term}
  {placeholder : Placeholder}

theorem Settled.waits_of_exposes (settled : arena.Settled waits term)
    (exposes : arena.Exposes placeholder term) : waits placeholder := by
  unfold Exposes at exposes
  induction exposes with
  | ticket =>
      cases settled with
      | ticket waiting => exact waiting
  | task inside _ ih =>
      cases settled with
      | apply tasks _ => exact ih (tasks _ inside)
  | argument bound _ ih =>
      cases settled with
      | apply _ arguments => exact ih (arguments _ bound)
  | condition inside _ ih =>
      cases settled with
      | cond condition _ _ => exact ih (condition _ inside)
  | output declared branch found inside _ ih =>
      cases settled with
      | cond _ _ outputs => exact ih (outputs _ _ _ _ branch declared found inside)
  | curryTask single inside _ ih =>
      cases settled with
      | curry tasks _ => exact ih (tasks _ inside)
      | several many => exact absurd single (Nat.not_lt_of_le many)
  | curryBinding single bound _ ih =>
      cases settled with
      | curry _ arguments => exact ih (arguments _ bound)
      | several many => exact absurd (single _ rfl) (Nat.not_lt_of_le many)

theorem Live.output? {block : BlockId} {found : Block} (live : arena.Live block found)
    (name : String) : arena.output? block name = found.get? name := by
  rw [Arena.output?, live.1]
  rfl

/-- What a pass meets stands in the term itself, or is bound in some block. -/
theorem Exposes.occurs (exposes : arena.Exposes placeholder term) :
    term.Occurs placeholder ∨
      ∃ slot block bound, arena.block? slot = some block ∧ BoundIn block.bindings bound ∧
        bound.Occurs placeholder := by
  unfold Exposes at exposes
  induction exposes with
  | ticket => exact .inl .ticket
  | task inside _ ih => exact ih.imp_left (.task inside)
  | argument bound _ ih => exact ih.imp_left (.argument bound)
  | condition inside _ ih => exact ih.imp_left (.condition inside)
  | output _ _ found inside _ ih =>
      obtain occurs | elsewhere := ih
      · obtain ⟨block, stored, value⟩ := Option.bind_eq_some_iff.mp found
        exact .inr ⟨_, block, _, stored, ⟨_, OrderedMap.mem_of_get? value, inside⟩, occurs⟩
      · exact .inr elsewhere
  | curryTask _ inside _ ih => exact ih.imp_left (.curryTask trivial inside)
  | curryBinding _ bound _ ih =>
      exact ih.imp_left (.curryBinding (fun _ _ => trivial) bound)

/-- What is settled stays so while blocks are made. -/
theorem Settled.preserved {later : Placeholder → Prop}
    (settled : arena.Settled waits term)
    (preserves : ∀ {slot block}, arena.Live slot block → after.Live slot block)
    (still : ∀ {placeholder}, waits placeholder → later placeholder) :
    after.Settled later term := by
  induction settled with
  | str value => exact .str value
  | lambda value => exact .lambda value
  | name name => exact .name name
  | ticket waiting => exact .ticket (still waiting)
  | apply _ _ tasks arguments => exact .apply tasks arguments
  | cond _ live _ condition outputs =>
      refine .cond condition (fun block branch => ?_)
        fun block name value term branch declared found inside => ?_
      · obtain ⟨block, before⟩ := live block branch
        exact ⟨block, preserves before⟩
      · obtain ⟨stored, before⟩ := live block branch
        refine outputs block name value term branch declared ?_ inside
        rw [before.output?, ← (preserves before).output?]
        exact found
  | curry _ _ tasks arguments => exact .curry tasks arguments
  | several many => exact .several many

theorem exposes_of_collected {roots : List BlockId} {live : List Compound}
    (exposes : (arena.collected roots live).Exposes placeholder term) :
    arena.Exposes placeholder term := by
  refine Term.Shows.mono (fun found inside => ?_) exposes
  obtain ⟨kept, stored, bound⟩ := Option.bind_eq_some_iff.mp found
  rcases block?_of_collected stored with rfl | before
  · simp [Block.get?] at bound
  · rw [Arena.output?, before]
    exact bound

end Arena

end TicketFlow
