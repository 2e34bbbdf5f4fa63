import Mathlib.Data.List.Dedup
import TicketFlow.Proofs.Arena.Reachable

namespace TicketFlow

/-! The way of a pass through terms that stay.

Through an application and a curry of one task it leads to the task and to the
arguments, through a conditional to the condition and, in the scope of each
branch, to the declared outputs.  These branches are copied.  What else is
referred to on the way is only held: the bodies of lambdas, a curry of several
tasks, and of a branch the parent and what is bound to other names.
-/

/-- A term that a pass comes to, and the scope it is met in. -/
structure Visit where
  scope : BlockId
  term : Term

/-- What a pass comes to, the branches that it copies, in order, and the blocks
that it only refers to. -/
@[ext] structure Tour where
  visits : List Visit := []
  copied : List BlockId := []
  held : List BlockId := []

namespace Tour

protected def append (first second : Tour) : Tour where
  visits := first.visits ++ second.visits
  copied := first.copied ++ second.copied
  held := first.held ++ second.held

instance : Append Tour where
  append := Tour.append

def visit (scope : BlockId) (term : Term) : Tour where
  visits := [⟨scope, term⟩]

@[simp] theorem visits_append (first second : Tour) :
    (first ++ second).visits = first.visits ++ second.visits := rfl

@[simp] theorem copied_append (first second : Tour) :
    (first ++ second).copied = first.copied ++ second.copied := rfl

@[simp] theorem held_append (first second : Tour) :
    (first ++ second).held = first.held ++ second.held := rfl

@[simp] theorem visits_visit (scope : BlockId) (term : Term) :
    (visit scope term).visits = [⟨scope, term⟩] := rfl

@[simp] theorem copied_visit (scope : BlockId) (term : Term) :
    (visit scope term).copied = [] := rfl

@[simp] theorem held_visit (scope : BlockId) (term : Term) :
    (visit scope term).held = [] := rfl

theorem append_assoc (first second third : Tour) :
    first ++ second ++ third = first ++ (second ++ third) := by
  ext1 <;> simp

theorem nil_append (tour : Tour) : ({} : Tour) ++ tour = tour := rfl

theorem append_nil (tour : Tour) : tour ++ {} = tour := by
  ext1 <;> simp

end Tour

section Branches

/-- What the names are bound to, each of them taken once. -/
def Block.declared (names : List String) (block : Block) : Compound :=
  names.dedup.flatMap fun name => (block.get? name).getD []

/-- The bindings without the first one of each of the names. -/
def Bindings.sparing : List String → Bindings → Bindings
  | _, [] => []
  | names, (name, value) :: rest =>
      if name ∈ names then sparing (names.filter fun other => other != name) rest
      else (name, value) :: sparing names rest

/-- What a block refers to apart from what it binds to the names. -/
def Block.held (names : List String) (block : Block) : List BlockId :=
  block.parent.toList ++ Term.blocksOfBindings (Bindings.sparing names block.bindings)

theorem Bindings.mem_sparing (names : List String) {bindings : Bindings}
    {entry : String × Compound} (member : entry ∈ bindings) :
    entry ∈ sparing names bindings ∨
      entry.1 ∈ names ∧ bindings.get? entry.1 = some entry.2 := by
  induction bindings generalizing names with
  | nil => simp at member
  | cons first rest ih =>
      obtain ⟨name, value⟩ := first
      unfold sparing
      rcases List.mem_cons.mp member with rfl | later
      · by_cases among : name ∈ names
        · exact .inr ⟨among, by simp [OrderedMap.get?]⟩
        · exact .inl (by simp [among])
      · by_cases among : name ∈ names
        · rw [if_pos among]
          refine (ih _ later).imp id fun met => ?_
          obtain ⟨kept, bound⟩ := met
          obtain ⟨still, apart⟩ := List.mem_filter.mp kept
          have distinct : name ≠ entry.1 := fun same => by simp [same] at apart
          exact ⟨still, by simpa [OrderedMap.get?, distinct] using bound⟩
        · rw [if_neg among]
          refine (ih _ later).imp (List.mem_cons_of_mem _) fun met => ?_
          obtain ⟨kept, bound⟩ := met
          have distinct : name ≠ entry.1 := fun same => among (same ▸ kept)
          exact ⟨kept, by simpa [OrderedMap.get?, distinct] using bound⟩

theorem Bindings.mem_of_mem_sparing {names : List String} {bindings : Bindings}
    {entry : String × Compound} (member : entry ∈ sparing names bindings) :
    entry ∈ bindings := by
  induction bindings generalizing names with
  | nil => simp [sparing] at member
  | cons first rest ih =>
      unfold sparing at member
      split at member
      · exact List.mem_cons_of_mem _ (ih member)
      · exact (List.mem_cons.mp member).elim (· ▸ List.mem_cons_self)
          fun later => List.mem_cons_of_mem _ (ih later)

theorem Bindings.sparing_insert {names : List String} {bindings : Bindings}
    {name : String} {value : Compound} (among : name ∈ names)
    (bound : ∃ before, bindings.get? name = some before) :
    sparing names (bindings.insert name value) = sparing names bindings := by
  induction bindings generalizing names with
  | nil => simp [OrderedMap.get?] at bound
  | cons first rest ih =>
      obtain ⟨other, before⟩ := first
      by_cases same : other = name
      · subst same
        simp [OrderedMap.insert, sparing, among]
      · have later : ∃ before, OrderedMap.get? rest name = some before := by
          simpa [OrderedMap.get?, same] using bound
        have still : name ∈ names.filter fun kept => kept != other := by
          simp [among, Ne.symm same]
        simp only [OrderedMap.insert, same, if_false, sparing,
          ih still later, ih among later]

theorem Block.bound_rebind {block : Block} {bindings : Bindings} {name : String}
    (bound : name ∈ bindings.keys ∨ ∃ before, block.get? name = some before) :
    ∃ value, (block.rebind bindings).get? name = some value := by
  induction bindings generalizing block with
  | nil => exact bound.elim (fun inside => absurd inside List.not_mem_nil) id
  | cons binding rest ih =>
      rw [rebind_cons]
      refine ih ?_
      by_cases same : binding.1 = name
      · exact .inr ⟨binding.2, by simp [get?, same]⟩
      · rcases bound with inside | ⟨before, here⟩
        · exact .inl ((List.mem_cons.mp inside).resolve_left (Ne.symm same))
        · exact .inr ⟨before, by rwa [get?, OrderedMap.get?_insert_of_ne same]⟩

/-- Binding the names anew, a block holds what it held. -/
theorem Block.held_rebind {names : List String} {block : Block} {bindings : Bindings}
    (among : ∀ name ∈ bindings.keys, name ∈ names)
    (bound : ∀ name ∈ names, ∃ before, block.get? name = some before) :
    (block.rebind bindings).held names = block.held names := by
  induction bindings generalizing block with
  | nil => rfl
  | cons binding rest ih =>
      obtain ⟨name, value⟩ := binding
      have named : name ∈ names := among name List.mem_cons_self
      rw [rebind_cons,
        ih (fun other inside => among other (List.mem_cons_of_mem _ inside))
          fun other inside => ?_]
      · rw [held, held, Bindings.sparing_insert named (bound name named)]
      · by_cases same : name = other
        · exact ⟨value, by simp [get?, same]⟩
        · obtain ⟨before, here⟩ := bound other inside
          exact ⟨before, by rwa [get?, OrderedMap.get?_insert_of_ne same]⟩

/-- What a block declares once the names have been bound anew is what they were bound to. -/
theorem Block.mem_declared_rebind {block : Block} {bindings : Bindings}
    {names : List String} (keys : bindings.keys = names) {term : Term}
    (member : term ∈ (block.rebind bindings).declared names) : BoundIn bindings term := by
  obtain ⟨name, among, inside⟩ := List.mem_flatMap.mp member
  cases found : (block.rebind bindings).get? name with
  | none => simp [found] at inside
  | some value =>
      rw [found, Option.getD_some] at inside
      rcases Block.get?_rebind found with entry | ⟨absent, _⟩
      · exact ⟨_, entry, inside⟩
      · exact absurd (keys ▸ List.mem_dedup.mp among) absent

/-- Of a name that is declared once more nothing is seen. -/
theorem Block.declared_rebind_of_mem {block : Block} {bindings : Bindings} {name : String}
    {value : Compound} {names : List String} (again : name ∈ names) :
    (block.rebind ((name, value) :: bindings)).declared (name :: names) =
      (({ block with bindings := block.bindings.insert name value } : Block).rebind
        bindings).declared names := by
  rw [declared, List.dedup_cons_of_mem again, rebind_cons, declared]

theorem Block.declared_rebind_of_not_mem {block : Block} {bindings : Bindings}
    {name : String} {value : Compound} {names : List String}
    (once : name ∉ names) (keys : bindings.keys = names) :
    (block.rebind ((name, value) :: bindings)).declared (name :: names) =
      value ++
        (({ block with bindings := block.bindings.insert name value } : Block).rebind
          bindings).declared names := by
  rw [declared, List.dedup_cons_of_notMem once, rebind_cons, List.flatMap_cons, declared,
    get?_rebind_of_not_mem (keys ▸ once)]
  simp [get?]

end Branches

/-- A term that a pass goes no further into. -/
def Term.isPlain : Term → Bool
  | .name _ | .str _ | .lambda _ | .ticket _ => true
  | .apply .. | .cond .. | .curry (some [_]) _ => false
  | .curry .. => true

section Tours

variable (recurse : BlockId → Compound → Tour → Prop) (arena : Arena)

/-- Through the declared outputs of a branch, which is copied. -/
inductive BranchTour (prototype : Prototype) (slot : BlockId) : Tour → Prop where
  | through {block : Block} {outputs : Tour} :
      arena.Live slot block →
      (∀ output ∈ prototype.outputs, ∃ value, block.get? output = some value) →
      recurse slot (block.declared prototype.outputs) outputs →
      BranchTour prototype slot
        (outputs ++ { copied := [slot], held := block.held prototype.outputs })

inductive TermTour (scope : BlockId) : Term → Tour → Prop where
  | plain {term : Term} :
      term.isPlain = true →
      TermTour scope term { visits := [⟨scope, term⟩], held := term.blocks }
  | apply {task : Compound} {bindings : Bindings}
      {channel : Nat} {rest : Bool} {tasks arguments : Tour} :
      recurse scope task tasks → recurse scope bindings.values.flatten arguments →
      TermTour scope (.apply task bindings channel rest)
          (.visit scope (.apply task bindings channel rest) ++ (tasks ++ arguments))
  | cond {condition : Compound} {prototype : Prototype} {channel : Nat}
      {thenBlock elseBlock : BlockId} {conditions thens elses : Tour} :
      recurse scope condition conditions →
      BranchTour recurse arena prototype thenBlock thens →
      BranchTour recurse arena prototype elseBlock elses →
      TermTour scope (.cond condition prototype channel thenBlock elseBlock)
        (.visit scope (.cond condition prototype channel thenBlock elseBlock) ++
          (conditions ++ (thens ++ elses)))
  | curry {task : Term} {bindings : Bindings} {tasks arguments : Tour} :
      recurse scope [task] tasks → recurse scope bindings.values.flatten arguments →
      TermTour scope (.curry (some [task]) bindings)
        (.visit scope (.curry (some [task]) bindings) ++ (tasks ++ arguments))

/-- One term after the other. -/
inductive Strung (each : Term → Tour → Prop) : Compound → Tour → Prop where
  | nil : Strung each [] {}
  | cons {term : Term} {rest : Compound} {here later : Tour} :
      each term here → Strung each rest later → Strung each (term :: rest) (here ++ later)

/-- The way through the terms, at most `depth` compounds inside each other. -/
def Arena.Tours (arena : Arena) : Nat → BlockId → Compound → Tour → Prop
  | 0, _, _, _ => False
  | depth + 1, scope, terms, tour =>
      Strung (TermTour (Tours arena depth) arena scope) terms tour

end Tours

variable {arena before after : Arena} {depth more : Nat} {scope slot : BlockId}
  {terms others : Compound} {term : Term} {tour : Tour}
  {prototype : Prototype} {recurse wider : BlockId → Compound → Tour → Prop}

section Strings

variable {each finer : Term → Tour → Prop}

theorem strung_append : Strung each (terms ++ others) tour ↔
    ∃ first second, tour = first ++ second ∧ Strung each terms first ∧
      Strung each others second := by
  constructor
  · intro strung
    induction terms generalizing tour with
    | nil => exact ⟨{}, tour, rfl, .nil, strung⟩
    | cons term rest ih =>
        cases strung with
        | @cons _ _ here later first remaining =>
            obtain ⟨front, back, rfl, before, after⟩ := ih remaining
            exact ⟨here ++ front, back, (Tour.append_assoc ..).symm, .cons first before, after⟩
  · rintro ⟨first, second, rfl, before, after⟩
    induction before with
    | nil => exact after
    | cons here _ ih =>
        rw [Tour.append_assoc]
        exact .cons here ih

theorem strung_singleton : Strung each [term] tour ↔ each term tour := by
  constructor
  · intro strung
    cases strung with
    | cons here rest =>
        cases rest
        rwa [Tour.append_nil]
  · exact fun here => tour.append_nil ▸ .cons here .nil

theorem Strung.mono (strung : Strung each terms tour)
    (implies : ∀ term ∈ terms, ∀ part : Tour, part.copied ⊆ tour.copied → each term part →
      finer term part) : Strung finer terms tour := by
  induction strung with
  | nil => exact .nil
  | cons here _ ih =>
      refine .cons (implies _ List.mem_cons_self _ (List.subset_append_left _ _) here)
        (ih fun term inside part within =>
          implies term (List.mem_cons_of_mem _ inside) part ?_)
      exact fun block among => List.mem_append_right _ (within among)

end Strings

theorem Arena.tours_append : arena.Tours depth scope (terms ++ others) tour ↔
    ∃ first second, tour = first ++ second ∧ arena.Tours depth scope terms first ∧
      arena.Tours depth scope others second := by
  cases depth with
  | zero => simp [Tours]
  | succ depth => exact strung_append

theorem Arena.Tours.eq_empty (toured : arena.Tours depth scope [] tour) :
    tour = {} ∧ ∀ (other : Arena) (scope : BlockId), other.Tours depth scope [] {} := by
  cases depth with
  | zero => exact absurd toured id
  | succ depth =>
      cases toured
      exact ⟨rfl, fun _ _ => .nil⟩

section Transport

theorem BranchTour.mono (branch : BranchTour recurse before prototype slot tour)
    (lives : ∀ block, before.Live slot block → after.Live slot block)
    (implies : ∀ scope terms part, part.copied ⊆ tour.copied → recurse scope terms part →
      wider scope terms part) : BranchTour wider after prototype slot tour := by
  cases branch with
  | through live bound outputs =>
      exact .through (lives _ live) bound (implies _ _ _ (List.subset_append_left _ _) outputs)

theorem BranchTour.mem_copied (branch : BranchTour recurse before prototype slot tour) :
    slot ∈ tour.copied := by
  cases branch
  simp

theorem TermTour.mono (toured : TermTour recurse before scope term tour)
    (lives : ∀ slot block, slot ∈ tour.copied → before.Live slot block → after.Live slot block)
    (implies : ∀ scope terms part, part.copied ⊆ tour.copied → recurse scope terms part →
      wider scope terms part) : TermTour wider after scope term tour := by
  cases toured with
  | plain plain => exact .plain plain
  | apply tasks arguments =>
      exact .apply (implies _ _ _ (by simp) tasks) (implies _ _ _ (by simp) arguments)
  | @cond _ _ _ _ _ conditions thens elses inCondition inThen inElse =>
      have left : thens.copied ⊆ conditions.copied ++ (thens.copied ++ elses.copied) := by
        simp
      have right : elses.copied ⊆
          conditions.copied ++ (thens.copied ++ elses.copied) := by simp
      exact .cond (implies _ _ _ (by simp) inCondition)
        (inThen.mono (fun block => lives _ block (left inThen.mem_copied)) fun scope terms
          part within => implies scope terms part (List.Subset.trans within left))
        (inElse.mono (fun block => lives _ block (right inElse.mem_copied)) fun scope
          terms part within => implies scope terms part (List.Subset.trans within right))
  | curry tasks arguments =>
      exact .curry (implies _ _ _ (by simp) tasks) (implies _ _ _ (by simp) arguments)

/-- The way is the same where the branches on it are. -/
theorem Arena.Tours.transport (toured : before.Tours depth scope terms tour)
    (lives : ∀ slot block, slot ∈ tour.copied → before.Live slot block →
      after.Live slot block) : after.Tours depth scope terms tour := by
  induction depth generalizing scope terms tour with
  | zero => exact toured
  | succ depth ih =>
      refine Strung.mono toured fun term _ part within here => ?_
      have kept (slot : BlockId) (block : Block) (among : slot ∈ part.copied) :=
        lives slot block (within among)
      exact here.mono kept fun scope terms inner inside there =>
        ih there fun slot block among => kept slot block (inside among)

theorem Arena.Tours.preserved (toured : before.Tours depth scope terms tour)
    (preserves : before.Preserves after) : after.Tours depth scope terms tour :=
  toured.transport fun _ _ _ => preserves.live

theorem Arena.Tours.deeper (toured : arena.Tours depth scope terms tour)
    (enough : depth ≤ more) : arena.Tours more scope terms tour := by
  induction depth generalizing scope terms tour more with
  | zero => exact absurd toured id
  | succ depth ih =>
      obtain ⟨more, rfl⟩ :=
        Nat.exists_eq_add_of_le' (Nat.le_trans (Nat.le_add_left 1 depth) enough)
      refine Strung.mono toured fun term _ part _ here =>
        here.mono (fun _ _ _ => id) fun scope terms inner _ there => ?_
      exact ih there (Nat.le_of_succ_le_succ enough)

end Transport

section Uniqueness

variable {other : Tour}

theorem Strung.unique {each : Term → Tour → Prop} {terms : Compound} {tour other : Tour}
    (strung : Strung each terms tour) (again : Strung finer terms other)
    (alike : ∀ term first second, each term first → finer term second → second = first) :
    other = tour := by
  induction strung generalizing other with
  | nil =>
      cases again
      rfl
  | cons here _ ih =>
      cases again with
      | cons there later => rw [alike _ _ _ here there, ih later]

theorem BranchTour.unique (branch : BranchTour recurse arena prototype slot tour)
    (again : BranchTour wider arena prototype slot other)
    (alike : ∀ scope terms first second, recurse scope terms first →
      wider scope terms second → second = first) : other = tour := by
  cases branch with
  | through live _ outputs =>
      cases again with
      | through liveAgain _ outputsAgain =>
          obtain rfl := Option.some.inj (live.1.symm.trans liveAgain.1)
          rw [alike _ _ _ _ outputs outputsAgain]

/-- There is one way through the terms, however deep it leads. -/
theorem Arena.Tours.unique (toured : arena.Tours depth scope terms tour)
    (again : arena.Tours more scope terms other) : other = tour := by
  induction depth generalizing more scope terms tour other with
  | zero => exact absurd toured id
  | succ depth ih =>
      cases more with
      | zero => exact absurd again id
      | succ more =>
          refine Strung.unique toured again fun term first second here there => ?_
          cases here with
          | plain plain =>
              cases there with
              | plain => rfl
              | apply | cond | curry => exact Bool.noConfusion plain
          | apply tasks arguments =>
              cases there with
              | plain plain => exact Bool.noConfusion plain
              | apply tasksAgain argumentsAgain =>
                  rw [ih tasks tasksAgain, ih arguments argumentsAgain]
          | cond condition thens elses =>
              have alike (scope : BlockId) (terms : Compound) (first second : Tour)
                  (here : arena.Tours depth scope terms first)
                  (there : arena.Tours more scope terms second) : second = first :=
                ih here there
              cases there with
              | plain plain => exact Bool.noConfusion plain
              | cond conditionAgain thensAgain elsesAgain =>
                  rw [ih condition conditionAgain, thens.unique thensAgain alike,
                    elses.unique elsesAgain alike]
          | curry tasks arguments =>
              cases there with
              | plain plain => exact Bool.noConfusion plain
              | curry tasksAgain argumentsAgain =>
                  rw [ih tasks tasksAgain, ih arguments argumentsAgain]

end Uniqueness

section Blocks

/-- The block is copied or held. -/
def Tour.Names (tour : Tour) (block : BlockId) : Prop :=
  block ∈ tour.copied ∨ block ∈ tour.held

/-- The tour names the blocks in the list, and what the blocks that it copies refer to;
whatever it names can be reached from a block in the list. -/
structure Arena.Charts (arena : Arena) (starts : List BlockId) (tour : Tour) : Prop where
  named : ∀ block ∈ starts, tour.Names block
  refers : ∀ slot ∈ tour.copied, ∀ block ∈ arena.references slot, tour.Names block
  reached : ∀ slot, tour.Names slot → ∃ entry ∈ starts, arena.Reaches entry slot

variable {block : BlockId} {starts further : List BlockId} {first second : Tour}

theorem Tour.names_append :
    (first ++ second).Names block ↔ first.Names block ∨ second.Names block := by
  simp only [Names, copied_append, held_append, List.mem_append]
  tauto

theorem boundIn_iff_mem_flatten {bindings : Bindings} :
    BoundIn bindings term ↔ term ∈ bindings.values.flatten := by
  simp only [BoundIn, OrderedMap.values, List.mem_flatten, List.mem_map,
    exists_exists_and_eq_and]

namespace Arena

theorem Charts.append (left : arena.Charts starts first)
    (right : arena.Charts further second) :
    arena.Charts (starts ++ further) (first ++ second) where
  named block among := Tour.names_append.mpr
    ((List.mem_append.mp among).imp (left.named block) (right.named block))
  refers slot among block refers := Tour.names_append.mpr <|
    (List.mem_append.mp among).imp (left.refers slot · block refers)
      (right.refers slot · block refers)
  reached slot names := by
    rcases Tour.names_append.mp names with here | there
    · obtain ⟨entry, among, reaches⟩ := left.reached slot here
      exact ⟨entry, List.mem_append_left _ among, reaches⟩
    · obtain ⟨entry, among, reaches⟩ := right.reached slot there
      exact ⟨entry, List.mem_append_right _ among, reaches⟩

theorem Charts.of_mem_iff (charts : arena.Charts starts tour)
    (same : ∀ block, block ∈ further ↔ block ∈ starts) : arena.Charts further tour where
  named block among := charts.named block ((same block).mp among)
  refers := charts.refers
  reached slot names := by
    obtain ⟨entry, among, reaches⟩ := charts.reached slot names
    exact ⟨entry, (same entry).mpr among, reaches⟩

theorem charts_visit (scope : BlockId) (term : Term) :
    arena.Charts [] (.visit scope term) :=
  ⟨fun _ among => absurd among List.not_mem_nil,
    fun _ among => absurd among List.not_mem_nil,
    fun _ names => names.elim (absurd · List.not_mem_nil) (absurd · List.not_mem_nil)⟩

theorem charts_held (starts : List BlockId) (visits : List Visit) :
    arena.Charts starts { visits, held := starts } where
  named _ among := .inr among
  refers _ among := absurd among List.not_mem_nil
  reached slot names := ⟨slot, names.resolve_left List.not_mem_nil, .refl⟩

/-- What is bound in a block is bound to a name that is declared, or held. -/
theorem mem_references_iff {found : Block}
    (live : arena.Live slot found) {names : List String} :
    block ∈ arena.references slot ↔
      block ∈ found.held names ∨ block ∈ (found.declared names).blocks := by
  rw [live.references]
  constructor
  · intro refers
    rcases List.mem_append.mp refers with parent | inside
    · exact .inl (List.mem_append_left _ parent)
    · obtain ⟨term, ⟨entry, member, among⟩, here⟩ := Term.mem_blocksOfBindings.mp inside
      rcases Bindings.mem_sparing names member with spared | ⟨output, stored⟩
      · exact .inl (List.mem_append_right _
          (Term.mem_blocksOfBindings.mpr ⟨term, ⟨entry, spared, among⟩, here⟩))
      · refine .inr (Term.mem_blocksOfAll.mpr
          ⟨term, List.mem_flatMap.mpr ⟨entry.1, List.mem_dedup.mpr output, ?_⟩, here⟩)
        rw [Block.get?, stored]
        exact among
  · rintro (held | declared)
    · refine List.mem_append.mpr ((List.mem_append.mp held).imp id fun spared => ?_)
      obtain ⟨term, ⟨entry, member, among⟩, here⟩ := Term.mem_blocksOfBindings.mp spared
      exact Term.mem_blocksOfBindings.mpr
        ⟨term, ⟨entry, Bindings.mem_of_mem_sparing member, among⟩, here⟩
    · obtain ⟨term, inside, here⟩ := Term.mem_blocksOfAll.mp declared
      obtain ⟨name, _, among⟩ := List.mem_flatMap.mp inside
      cases bound : found.get? name with
      | none => simp [bound] at among
      | some value =>
          rw [bound, Option.getD_some] at among
          exact List.mem_append_right _ (Term.mem_blocksOfBindings.mpr
            ⟨term, ⟨_, OrderedMap.mem_of_get? bound, among⟩, here⟩)

end Arena

theorem BranchTour.charts (branch : BranchTour recurse arena prototype slot tour)
    (inside : ∀ scope terms tour, recurse scope terms tour → arena.Charts terms.blocks tour) :
    arena.Charts [slot] tour := by
  cases branch with
  | @through found outputs live bound toured =>
      have charts := inside _ _ _ toured
      have further {block : BlockId}
          (names : outputs.Names block ∨ block = slot ∨ block ∈ found.held prototype.outputs) :
            (outputs ++ { copied := [slot], held := found.held prototype.outputs }).Names
              block :=
        Tour.names_append.mpr (names.imp id (.imp List.mem_singleton.mpr id))
      refine ⟨fun block among => further (.inr (.inl (List.mem_singleton.mp among))),
        fun copied among block refers => further ?_,
        fun other names => ⟨slot, List.mem_cons_self, ?_⟩⟩
      · rcases List.mem_append.mp among with before | here
        · exact .inl (charts.refers copied before block refers)
        · obtain rfl := List.mem_singleton.mp here
          rcases (Arena.mem_references_iff live).mp refers with held | declared
          · exact .inr (.inr held)
          · exact .inl (charts.named block declared)
      · rcases Tour.names_append.mp names with before | here | held
        · obtain ⟨entry, among, reaches⟩ := charts.reached other before
          exact .head ((Arena.mem_references_iff live).mpr (.inr among)) reaches
        · rw [List.mem_singleton.mp here]
          exact .refl
        · exact .single ((Arena.mem_references_iff live).mpr (.inl held))

theorem TermTour.charts (toured : TermTour recurse arena scope term tour)
    (inside : ∀ scope terms tour, recurse scope terms tour → arena.Charts terms.blocks tour) :
    arena.Charts term.blocks tour := by
  have arguments {bindings : Bindings} {tour : Tour}
      (bound : recurse scope bindings.values.flatten tour) :
      arena.Charts (Term.blocksOfBindings bindings) tour := by
    refine (inside _ _ _ bound).of_mem_iff fun block => ?_
    rw [Term.mem_blocksOfBindings, Compound.blocks, Term.mem_blocksOfAll]
    simp only [boundIn_iff_mem_flatten]
  cases toured with
  | plain => exact Arena.charts_held _ _
  | apply tasks bound =>
      exact (Arena.charts_visit _ _).append ((inside _ _ _ tasks).append (arguments bound))
  | cond condition thens elses =>
      exact (Arena.charts_visit _ _).append
        ((inside _ _ _ condition).append ((thens.charts inside).append (elses.charts inside)))
  | curry tasks bound =>
      exact (Arena.charts_visit _ _).append ((inside _ _ _ tasks).append (arguments bound))

theorem Arena.Tours.charts (toured : arena.Tours depth scope terms tour) :
    arena.Charts terms.blocks tour := by
  induction depth generalizing scope terms tour with
  | zero => exact absurd toured id
  | succ depth ih =>
      change Strung _ terms tour at toured
      induction toured with
      | nil => exact charts_held [] []
      | cons here _ rest => exact (here.charts fun scope terms tour => ih).append rest

/-- Whatever can be reached from the terms is copied, or can be reached from
a block that is held. -/
theorem Arena.Charts.reaches {entry : BlockId} (charts : arena.Charts starts tour)
    (among : entry ∈ starts) (reaches : arena.Reaches entry block) :
    block ∈ tour.copied ∨ ∃ held ∈ tour.held, arena.Reaches held block := by
  have held {other : BlockId} (names : tour.Names other) :
      other ∈ tour.copied ∨ ∃ held ∈ tour.held, arena.Reaches held other :=
    names.imp id fun inside => ⟨other, inside, .refl⟩
  -- along the way, until it leaves the copied blocks through one that is held
  induction reaches with
  | refl => exact held (charts.named entry among)
  | tail _ refers ih =>
      rcases ih with copied | ⟨from_, inside, before⟩
      · exact held (charts.refers _ copied _ refers)
      · exact .inr ⟨from_, inside, before.tail refers⟩

/-- What is met is met in the scope that the pass starts in, or in a branch that is copied. -/
theorem BranchTour.scope_of_mem (branch : BranchTour recurse arena prototype slot tour)
    (inside : ∀ scope terms tour, recurse scope terms tour →
      ∀ visit ∈ tour.visits, visit.scope = scope ∨ visit.scope ∈ tour.copied)
    (visit : Visit) (met : visit ∈ tour.visits) : visit.scope ∈ tour.copied := by
  cases branch with
  | through live bound toured =>
      have met := (List.mem_append.mp met).resolve_right List.not_mem_nil
      rcases inside _ _ _ toured visit met with here | copied
      · exact List.mem_append_right _ (List.mem_singleton.mpr here)
      · exact List.mem_append_left _ copied

theorem TermTour.scope_of_mem (toured : TermTour recurse arena scope term tour)
    (inside : ∀ scope terms tour, recurse scope terms tour →
      ∀ visit ∈ tour.visits, visit.scope = scope ∨ visit.scope ∈ tour.copied)
    (visit : Visit) (met : visit ∈ tour.visits) :
    visit.scope = scope ∨ visit.scope ∈ tour.copied := by
  cases toured with
  | plain => exact .inl (List.mem_singleton.mp met ▸ rfl)
  | apply tasks arguments =>
      have inTask := inside _ _ _ tasks visit
      have inArguments := inside _ _ _ arguments visit
      grind [Tour.visits_append, Tour.copied_append, Tour.visits_visit]
  | cond condition thens elses =>
      have inCondition := inside _ _ _ condition visit
      have inThen := thens.scope_of_mem inside visit
      have inElse := elses.scope_of_mem inside visit
      grind [Tour.visits_append, Tour.copied_append, Tour.visits_visit]
  | curry tasks arguments =>
      have inTask := inside _ _ _ tasks visit
      have inArguments := inside _ _ _ arguments visit
      grind [Tour.visits_append, Tour.copied_append, Tour.visits_visit]

theorem Arena.Tours.scope_of_mem (toured : arena.Tours depth scope terms tour) :
    ∀ visit ∈ tour.visits, visit.scope = scope ∨ visit.scope ∈ tour.copied := by
  induction depth generalizing scope terms tour with
  | zero => exact absurd toured id
  | succ depth ih =>
      change Strung _ terms tour at toured
      induction toured with
      | nil => exact fun _ met => absurd met List.not_mem_nil
      | cons here _ rest =>
          intro visit met
          rcases List.mem_append.mp met with first | later
          · exact (here.scope_of_mem (fun scope terms tour => ih) visit first).imp id
              (List.mem_append_left _)
          · exact (rest visit later).imp id (List.mem_append_right _)

end Blocks

end TicketFlow
