import Mathlib.Data.String.Basic
import TicketFlow.Arena.Encode
import TicketFlow.Proofs.Encoding.Reading
import TicketFlow.Proofs.Encoding.Terms
import TicketFlow.Proofs.Reduction.Combination

namespace TicketFlow

/-! The JSON form loses nothing.

A reader and a writer are faithful within a depth if what the writer makes of a
value that nests no deeper is read as this value, and if what is read was worth
writing: it fits into its type and nests no deeper than what it was read from.
Records, lists and maps of faithful parts are faithful one step further down.
-/

mutual

/-- How many containers of the value stand in each other. -/
def Json.nesting : Json → Nat
  | .null | .bool _ | .number _ | .string _ => 0
  | .array items => nestingOfItems items + 1
  | .object members => nestingOfMembers members + 1
termination_by structural value => value

def Json.nestingOfItems : List Json → Nat
  | [] => 0
  | item :: rest => max item.nesting (nestingOfItems rest)
termination_by structural items => items

def Json.nestingOfMembers : List (String × Json) → Nat
  | [] => 0
  | (_, value) :: rest => max value.nesting (nestingOfMembers rest)
termination_by structural members => members

end

section Storable

open RawJson (maxBlock)
open RawJson.Numeral (maxSignificand)

def Lambda.Storable : Lambda → Prop
  | .native lambda => lambda.body.index ≤ maxBlock
  | .foreign _ => True

/-- Channels and blocks are numbers of 64 and 32 bits, and bindings are maps. -/
inductive Term.Storable : Term → Prop where
  | name (name : String) : Storable (.name name)
  | str (value : String) : Storable (.str value)
  | lambda {lambda : Lambda} : lambda.Storable → Storable (.lambda lambda)
  | ticket {placeholder : Placeholder} :
      placeholder.channel ≤ maxSignificand → Storable (.ticket placeholder)
  | apply {task : Compound} {bindings : Bindings} {channel : Nat} {rest : Bool} :
      (∀ term ∈ task, Storable term) → OrderedMap.Distinct bindings →
      (∀ term, BoundIn bindings term → Storable term) → channel ≤ maxSignificand →
      Storable (.apply task bindings channel rest)
  | cond {condition : Compound} {prototype : Prototype}
      {channel : Nat} {thenBlock elseBlock : BlockId} :
      (∀ term ∈ condition, Storable term) → channel ≤ maxSignificand →
      thenBlock.index ≤ maxBlock → elseBlock.index ≤ maxBlock →
      Storable (.cond condition prototype channel thenBlock elseBlock)
  | curry {task : Option Compound} {bindings : Bindings} :
      (∀ terms ∈ task, ∀ term ∈ terms, Storable term) → OrderedMap.Distinct bindings →
      (∀ term, BoundIn bindings term → Storable term) → Storable (.curry task bindings)

/-- The fields of an application, without the mark of its kind. -/
def Apply.record (apply : Apply) : Json :=
  .object [("task", Compound.toJson apply.task),
    ("bindings", Bindings.toJson apply.bindings), ("channel", Json.nat apply.channel),
    ("rest", .bool apply.rest)]

def Cond.record (cond : Cond) : Json :=
  .object [("condition", Compound.toJson cond.condition),
    ("prototype", cond.prototype.toJson), ("channel", Json.nat cond.channel),
    ("then_block", cond.thenBlock.toJson), ("else_block", cond.elseBlock.toJson)]

def Curry.record (curry : Curry) : Json :=
  .object [("task", (curry.task.map Compound.toJson).getD .null),
    ("bindings", Bindings.toJson curry.bindings)]

theorem Apply.toTerm_toJson (apply : Apply) :
    apply.toTerm.toJson = .object [("apply", apply.record)] := rfl

theorem Cond.toTerm_toJson (cond : Cond) :
    cond.toTerm.toJson = .object [("cond", cond.record)] := rfl

theorem Curry.toTerm_toJson (curry : Curry) :
    curry.toTerm.toJson = .object [("curry", curry.record)] := by
  obtain ⟨task, bindings⟩ := curry
  cases task <;> rfl

def Compound.Storable (terms : Compound) : Prop :=
  ∀ term ∈ terms, term.Storable

def Bindings.Storable (bindings : Bindings) : Prop :=
  OrderedMap.Distinct bindings ∧ ∀ term, BoundIn bindings term → term.Storable

/-- The arguments of a ticket are in the order of their names. -/
def Ticket.Storable (ticket : Ticket) : Prop :=
  ticket.bindings.Pairwise (fun left right => left.1 < right.1) ∧
    ∀ term, BoundIn ticket.bindings term → term.Storable

def Block.Storable (block : Block) : Prop :=
  (∀ above ∈ block.parent, above.index ≤ maxBlock) ∧ Bindings.Storable block.bindings

def Arena.Storable (arena : Arena) : Prop :=
  (∀ block ∈ arena.blocks, block.Storable) ∧ ∀ slot ∈ arena.free, slot.index ≤ maxBlock

end Storable

namespace Json

variable {items : List Json} {members : List (String × Json)} {depth : Nat}

@[simp] theorem nesting_string (value : String) : (Json.string value).nesting = 0 := rfl

@[simp] theorem nesting_bool (value : Bool) : (Json.bool value).nesting = 0 := rfl

@[simp] theorem nesting_nat (value : Nat) : (Json.nat value).nesting = 0 := rfl

@[simp] theorem nesting_null : Json.null.nesting = 0 := rfl

theorem nesting_array_le :
    (Json.array items).nesting ≤ depth + 1 ↔ ∀ item ∈ items, item.nesting ≤ depth := by
  rw [nesting, Nat.add_le_add_iff_right]
  induction items with
  | nil => simp [nestingOfItems]
  | cons item rest ih => simp [nestingOfItems, ih]

theorem nesting_object_le :
    (Json.object members).nesting ≤ depth + 1 ↔
      ∀ member ∈ members, member.2.nesting ≤ depth := by
  rw [nesting, Nat.add_le_add_iff_right]
  induction members with
  | nil => simp [nestingOfMembers]
  | cons member rest ih => simp [nestingOfMembers, ih]

theorem rawItems_eq (items : List Json) : rawItems items = items.map raw := by
  induction items with
  | nil => rfl
  | cons item rest ih => rw [rawItems, ih, List.map_cons]

theorem rawMembers_eq (members : List (String × Json)) :
    rawMembers members = OrderedMap.mapValues raw members := by
  induction members with
  | nil => rfl
  | cons member rest ih => simp [rawMembers, ih, OrderedMap.mapValues]

theorem raw_object (members : List (String × Json)) :
    (Json.object members).raw =
      .object (members.map fun member => (member.1, member.2.raw)) := by
  rw [raw, rawMembers_eq]
  rfl

end Json

theorem Json.ranks_nameBefore : OrderedMap.Ranks nameBefore (id : String → String) where
  injective := Function.injective_id
  before_iff := by simp [nameBefore]

/-- Entries in the order of their keys have different keys, and are in order already. -/
theorem OrderedMap.distinct_of_sorted {α : Type} {map : OrderedMap String α}
    (sorted : map.Pairwise fun left right => left.1 < right.1) :
    Distinct map ∧ sortedOfList Json.nameBefore map = map := by
  have distinct : Distinct map :=
    List.pairwise_map.mpr (sorted.imp fun before => ne_of_lt before)
  refine ⟨distinct, ?_⟩
  exact (perm_sortedOfList distinct).eq_of_pairwise
    (fun _ _ _ _ lower higher => absurd (lt_trans lower higher) (lt_irrefl _))
    (Json.ranks_nameBefore.sortedOfList distinct) sorted

namespace RawJson

@[simp] theorem string?_raw (value : String) :
    string? (Json.string value).raw = some value := rfl

theorem Record.orNull_string (value : String) :
    Record.orNull string? (Json.string value).raw = some (some value) := rfl

@[simp] theorem bool?_raw (value : Bool) : bool? (Json.bool value).raw = some value := rfl

/-- What is written of a value is read as the value, and what is read is a
value that can be written. -/
structure Faithful {α : Type} (read : RawJson → Option α) (write : α → Json)
    (storable : α → Prop) (depth : Nat) : Prop where
  complete :
    ∀ value, storable value →
    (write value).nesting ≤ depth → read (write value).raw = some value
  sound :
    ∀ {tree value}, read tree = some value → storable value ∧ (write value).nesting ≤ depth

section Combinators

variable {α : Type} {read : RawJson → Option α} {write : α → Json}
  {storable : α → Prop} {depth : Nat}

theorem mapM_map_eq_some {β γ : Type} {parse : β → Option α}
    {print : γ → β} {result : γ → α} {values : List γ}
    (each : ∀ value ∈ values, parse (print value) = some (result value)) :
    (values.map print).mapM parse = some (values.map result) := by
  induction values with
  | nil => rfl
  | cons value rest ih =>
      obtain ⟨first, later⟩ := List.forall_mem_cons.mp each
      simp [first, ih later]

theorem exists_of_mapM_eq_some {β : Type} {parse : β → Option α} {items : List β}
    {values : List α} {value : α} (parsed : items.mapM parse = some values)
    (among : value ∈ values) : ∃ item ∈ items, parse item = some value := by
  induction items generalizing values with
  | nil => simp_all
  | cons item rest ih =>
      simp only [List.mapM_cons, Option.bind_eq_bind, Option.bind_eq_some_iff,
        Option.pure_def, Option.some.injEq] at parsed
      obtain ⟨first, read, later, all, rfl⟩ := parsed
      rcases List.mem_cons.mp among with rfl | inside
      · exact ⟨item, List.mem_cons_self, read⟩
      · obtain ⟨other, inside, read⟩ := ih all inside
        exact ⟨other, List.mem_cons_of_mem _ inside, read⟩

theorem Faithful.array (each : Faithful read write storable depth) :
    Faithful (array? read) (fun values => .array (values.map write))
      (fun values => ∀ value ∈ values, storable value) (depth + 1) where
  complete := by
    intro values all nests
    simp only [Json.nesting_array_le, List.forall_mem_map] at nests
    rw [Json.raw, Json.rawItems_eq, array?, List.map_map]
    have read_ :
        (values.map fun value => (write value).raw).mapM read = some (values.map id) :=
      mapM_map_eq_some fun value among =>
        each.complete value (all value among) (nests value among)
    rwa [List.map_id] at read_
  sound := by
    intro tree values found
    cases tree with
    | array items =>
        have each (value : α) (among : value ∈ values) : storable value ∧
            (write value).nesting ≤ depth := by
          obtain ⟨item, _, read⟩ := exists_of_mapM_eq_some found among
          exact each.sound read
        simp only [Json.nesting_array_le, List.forall_mem_map]
        exact ⟨fun value among => (each value among).1,
          fun value among => (each value among).2⟩
    | _ => simp [array?] at found

/-- Where no container may be opened, nothing that is written as one is read. -/
theorem Faithful.nothing (nests : ∀ value, 0 < (write value).nesting)
    (unread : ∀ tree, read tree = none) : Faithful read write storable 0 :=
  ⟨fun value _ within => absurd (nests value) (Nat.not_lt.mpr within),
    fun {tree _} found => by simp [unread] at found⟩

/-- A container is read in what remains of the depth without it. -/
theorem Faithful.inside {read : Nat → RawJson → Option α}
    (nests : ∀ value, 0 < (write value).nesting)
    (each : ∀ depth, Faithful (read depth) write storable (depth + 1)) :
    ∀ depth, Faithful (fun tree => RawJson.inside depth fun depth => read depth tree)
      write storable depth
  | 0 => .nothing nests fun _ => rfl
  | depth + 1 => each depth

theorem Faithful.list {read : Nat → RawJson → Option α}
    (each : ∀ depth, Faithful (read depth) write storable depth) (depth : Nat) :
    Faithful (fun tree => RawJson.inside depth fun depth => tree.array? (read depth))
      (fun values => .array (values.map write))
      (fun values => ∀ value ∈ values, storable value) depth :=
  .inside (fun values => by simp [Json.nesting]) (fun depth => (each depth).array) depth

theorem required_ok {record : Record} {index : Nat} {value : α}
    (found : record.required index read = some value) :
    ∃ tree, read tree = some value := by
  obtain ⟨tree, _, read⟩ := Option.bind_eq_some_iff.mp found
  exact ⟨tree, read⟩

theorem optional_ok {record : Record} {index : Nat} {value : α}
    (found : record.optional index read = some (some value)) :
    ∃ tree, read tree = some value := by
  unfold Record.optional at found
  split at found
  next tree _ =>
    unfold Record.orNull at found
    split at found
    · simp at found
    · obtain ⟨_, read, same⟩ := Option.map_eq_some_iff.mp found
      exact ⟨tree, Option.some.inj same ▸ read⟩
  next => split at found <;> simp at found

theorem defaulted_ok {record : Record} {index : Nat} {absent value : α}
    (found : record.defaulted index absent read = some value) :
    (∃ tree, read tree = some value) ∨ absent = value := by
  unfold Record.defaulted at found
  split at found
  next tree _ => exact .inl ⟨tree, found⟩
  next => exact .inr (Option.some.inj found)

end Combinators

section Records

variable {members : List (String × Json)} {names : List String}
  {name : String} {value : Json}

theorem occurrences_eq_nil (absent : name ∉ OrderedMap.keys members) :
    occurrences name (members.map fun member => (member.1, member.2.raw)) = [] := by
  refine List.filterMap_eq_nil_iff.mpr fun member among => if_neg fun same => absent ?_
  obtain ⟨written, listed, rfl⟩ := List.mem_map.mp among
  exact List.mem_map.mpr ⟨written, listed, same⟩

theorem occurrences_of_mem (distinct : OrderedMap.Distinct members)
    (among : (name, value) ∈ members) :
    occurrences name (members.map fun member => (member.1, member.2.raw)) = [value.raw] := by
  induction members with
  | nil => simp at among
  | cons member rest ih =>
      obtain ⟨fresh, restDistinct⟩ := List.nodup_cons.mp distinct
      rcases List.mem_cons.mp among with rfl | later
      · have later := occurrences_eq_nil fresh
        simp only [occurrences] at later ⊢
        simp only [List.map_cons, List.filterMap_cons, if_true, later]
      · have apart : member.1 ≠ name :=
          fun same => fresh (same ▸ List.mem_map.mpr ⟨_, later, rfl⟩)
        have further := ih restDistinct later
        simp only [occurrences] at further ⊢
        simp only [List.map_cons, List.filterMap_cons, apart, if_false, further]

/-- A record is read from an object that has its fields in order. -/
theorem record?_raw (named : OrderedMap.keys members = names) (distinct : names.Nodup) :
    record? names (Json.object members).raw =
      some ⟨true, members.map fun member => some member.2.raw⟩ := by
  have each : ∀ member ∈ members,
      field? (members.map fun member => (member.1, member.2.raw)) member.1 =
        some (some member.2.raw) := by
    intro member among
    rw [field?, occurrences_of_mem (by rwa [OrderedMap.Distinct, named]) among]
  rw [← named, Json.raw_object, record?, OrderedMap.keys, mapM_map_eq_some each]
  rfl

end Records

section Parts

theorem faithful_string (depth : Nat) :
    Faithful string? Json.string (fun _ => True) depth where
  complete _ _ _ := rfl
  sound _ := ⟨trivial, Nat.zero_le _⟩

theorem faithful_strings : ∀ depth,
    Faithful (strings? depth) Json.strings (fun values => ∀ value ∈ values, True) depth :=
  .list faithful_string

theorem faithful_param :
    ∀ depth, Faithful (param? depth) Param.toJson (fun _ => True) depth := by
  refine .inside (fun param => by cases param <;> exact Nat.succ_pos _) fun depth =>
    ⟨fun param _ _ => ?_, fun {_ param} _ => ⟨trivial, ?_⟩⟩
  · cases param <;> rfl
  · cases param <;> simp [Param.toJson, Json.nesting, Json.nestingOfMembers]

theorem faithful_prototype :
    ∀ depth, Faithful (prototype? depth) Prototype.toJson (fun _ => True) depth := by
  refine .inside (fun _ => Nat.succ_pos _) fun depth =>
    ⟨fun prototype _ nests => ?_, fun {tree prototype} read => ⟨trivial, ?_⟩⟩
  · obtain ⟨params, outputs, correlated, rest⟩ := prototype
    simp only [Prototype.toJson, Json.nesting_object_le, List.forall_mem_append,
      List.forall_mem_cons] at nests
    have readParams :=
      (Faithful.list faithful_param depth).complete _ (fun _ _ => trivial) nests.1.1
    have readOutputs :=
      (faithful_strings depth).complete _ (fun _ _ => trivial) nests.1.2.1
    cases rest <;>
      simp [Prototype.toJson, Json.raw_object, record?, field?, occurrences,
        Record.required, Record.defaulted, Record.orNull_string, readParams, readOutputs]
  · simp only [Option.bind_eq_bind, Option.bind_eq_some_iff, Option.pure_def,
      Option.some.injEq] at read
    obtain ⟨record, _, params, readParams, outputs, readOutputs, correlated, _,
        rest, _, rfl⟩ := read
    obtain ⟨paramsTree, readParams⟩ := required_ok readParams
    obtain ⟨outputsTree, readOutputs⟩ := required_ok readOutputs
    have nestParams := ((Faithful.list faithful_param depth).sound readParams).2
    have nestOutputs := ((faithful_strings depth).sound readOutputs).2
    cases rest <;> simp [Prototype.toJson, Json.nesting_object_le,
      nestParams, nestOutputs]

theorem faithful_native :
    ∀ depth, Faithful (native? depth) NativeLambda.toJson
      (fun lambda => lambda.body.index ≤ maxBlock) depth := by
  refine .inside (fun _ => Nat.succ_pos _)
    fun depth => ⟨fun lambda small nests => ?_, fun {tree lambda} read => ?_⟩
  · simp only [NativeLambda.toJson, Json.nesting_object_le, List.forall_mem_cons] at nests
    rw [NativeLambda.toJson, record?_raw]
    · simp [Record.required,
        (faithful_prototype depth).complete _ trivial nests.1, blockId?_raw small]
    · rfl
    · decide
  · simp only [Option.bind_eq_bind, Option.bind_eq_some_iff, Option.pure_def,
      Option.some.injEq] at read
    obtain ⟨record, _, prototype, readPrototype, body, readBody, rfl⟩ := read
    obtain ⟨_, readPrototype⟩ := required_ok readPrototype
    obtain ⟨_, readBody⟩ := required_ok readBody
    have nests := ((faithful_prototype depth).sound readPrototype).2
    exact ⟨le_of_blockId? readBody,
      by simp [NativeLambda.toJson, Json.nesting_object_le, nests, BlockId.toJson]⟩

theorem faithful_foreign :
    ∀ depth, Faithful (foreign? depth) ForeignLambda.toJson (fun _ => True) depth := by
  refine .inside (fun _ => Nat.succ_pos _)
    fun depth => ⟨fun lambda _ nests => ?_, fun {tree lambda} read => ?_⟩
  · simp only [ForeignLambda.toJson, Json.nesting_object_le,
      List.forall_mem_cons] at nests
    rw [ForeignLambda.toJson, record?_raw]
    · simp [Record.required, (faithful_prototype depth).complete _ trivial nests.2.1]
    · rfl
    · decide
  · simp only [Option.bind_eq_bind, Option.bind_eq_some_iff, Option.pure_def,
      Option.some.injEq] at read
    obtain ⟨record, _, name, _, prototype, readPrototype, lang, _, script, _, rfl⟩ := read
    obtain ⟨_, readPrototype⟩ := required_ok readPrototype
    have nests := ((faithful_prototype depth).sound readPrototype).2
    exact ⟨trivial, by simp [ForeignLambda.toJson, Json.nesting_object_le, nests]⟩

theorem faithful_lambda :
    ∀ depth, Faithful (lambda? depth) Lambda.toJson Lambda.Storable depth := by
  refine .inside (fun lambda => by cases lambda <;> exact Nat.succ_pos _) fun depth =>
    ⟨fun lambda storable nests => ?_, fun {tree lambda} read => ?_⟩
  · cases lambda with
    | native lambda =>
        simp only [Lambda.toJson, Json.nesting_object_le, List.forall_mem_cons] at nests
        simp [Lambda.toJson, Json.raw_object, tagged?,
          (faithful_native depth).complete _ storable nests.1]
    | foreign lambda =>
        simp only [Lambda.toJson, Json.nesting_object_le, List.forall_mem_cons] at nests
        simp [Lambda.toJson, Json.raw_object, tagged?,
          (faithful_foreign depth).complete _ storable nests.1]
  · split at read
    next content _ =>
      obtain ⟨native, found, rfl⟩ := Option.map_eq_some_iff.mp read
      obtain ⟨small, nests⟩ := (faithful_native depth).sound found
      exact ⟨small, by simpa [Lambda.toJson, Json.nesting_object_le] using nests⟩
    next content _ =>
      obtain ⟨foreign, found, rfl⟩ := Option.map_eq_some_iff.mp read
      have within := ((faithful_foreign depth).sound found).2
      exact ⟨trivial, by simpa [Lambda.toJson, Json.nesting_object_le] using within⟩
    next => simp at read

theorem faithful_placeholder : ∀ depth, Faithful (placeholder? depth) Placeholder.toJson
    (fun placeholder => placeholder.channel ≤ Numeral.maxSignificand) depth := by
  refine .inside (fun _ => Nat.succ_pos _) fun depth =>
    ⟨fun placeholder small nests => ?_, fun {tree placeholder} read => ?_⟩
  · rw [Placeholder.toJson, record?_raw]
    · simp [Record.required, digest?_raw, nat?_raw small]
    · rfl
    · decide
  · simp only [Option.bind_eq_bind, Option.bind_eq_some_iff, Option.pure_def,
      Option.some.injEq] at read
    obtain ⟨record, _, ticket, _, channel, readChannel, output, _, rfl⟩ := read
    obtain ⟨_, readChannel⟩ := required_ok readChannel
    exact ⟨le_of_nat? readChannel,
      by simp [Placeholder.toJson, Json.nesting_object_le, Digest.toJson]⟩

end Parts

section Terms

theorem allToJson_eq (terms : List Term) :
    Term.allToJson terms = terms.map Term.toJson := by
  induction terms with
  | nil => rfl
  | cons term rest ih => rw [Term.allToJson, ih, List.map_cons]

/-- The readers of terms and of their parts are faithful, all of them at one depth. -/
structure TermsFaithful (depth : Nat) : Prop where
  term : Faithful (term? depth) Term.toJson Term.Storable depth
  compound : Faithful (compound? depth) Compound.toJson Compound.Storable depth
  bindings : Faithful (bindings? depth) Bindings.toJson Bindings.Storable depth
  application :
    Faithful (application? depth) Apply.record (fun apply => apply.toTerm.Storable) depth
  conditional :
    Faithful (conditional? depth) Cond.record (fun cond => cond.toTerm.Storable) depth
  curry : Faithful (curry? depth) Curry.record (fun curry => curry.toTerm.Storable) depth

variable {depth : Nat}

theorem TermsFaithful.application_succ (parts : TermsFaithful depth) :
    Faithful (application? (depth + 1)) Apply.record (fun apply => apply.toTerm.Storable)
      (depth + 1) where
  complete := by
    intro apply storable nests
    cases storable with
    | apply inTask distinct inBindings small =>
        simp only [Apply.record, Json.nesting_object_le, List.forall_mem_cons] at nests
        rw [Apply.record, application?, record?_raw]
        · simp [Record.required, Record.defaulted,
            parts.compound.complete _ inTask nests.1,
            parts.bindings.complete _ ⟨distinct, inBindings⟩ nests.2.1, nat?_raw small]
        · rfl
        · decide
  sound := by
    intro tree apply read
    simp only [application?, Option.bind_eq_bind, Option.bind_eq_some_iff,
      Option.pure_def, Option.some.injEq] at read
    obtain ⟨record, _, task, readTask, bindings, readBindings, channel, readChannel,
        rest, _, rfl⟩ := read
    obtain ⟨_, readTask⟩ := required_ok readTask
    obtain ⟨_, readBindings⟩ := required_ok readBindings
    obtain ⟨_, readChannel⟩ := required_ok readChannel
    obtain ⟨inTask, nestTask⟩ := parts.compound.sound readTask
    obtain ⟨⟨distinct, inBindings⟩, nestBindings⟩ := parts.bindings.sound readBindings
    refine ⟨.apply inTask distinct inBindings (le_of_nat? readChannel), ?_⟩
    simp [Apply.record, Json.nesting_object_le, nestTask, nestBindings]

theorem TermsFaithful.conditional_succ (parts : TermsFaithful depth) :
    Faithful (conditional? (depth + 1)) Cond.record (fun cond => cond.toTerm.Storable)
      (depth + 1) where
  complete := by
    intro cond storable nests
    cases storable with
    | cond inCondition small smallThen smallElse =>
        simp only [Cond.record, Json.nesting_object_le, List.forall_mem_cons] at nests
        rw [Cond.record, conditional?, record?_raw]
        · simp [Record.required, parts.compound.complete _ inCondition nests.1,
            (faithful_prototype depth).complete _ trivial nests.2.1, nat?_raw small,
            blockId?_raw smallThen, blockId?_raw smallElse]
        · rfl
        · decide
  sound := by
    intro tree cond read
    simp only [conditional?, Option.bind_eq_bind, Option.bind_eq_some_iff,
      Option.pure_def, Option.some.injEq] at read
    obtain ⟨record, _, condition, readCondition, prototype, readPrototype, channel,
        readChannel, thenBlock, readThen, elseBlock, readElse, rfl⟩ := read
    obtain ⟨_, readCondition⟩ := required_ok readCondition
    obtain ⟨_, readPrototype⟩ := required_ok readPrototype
    obtain ⟨_, readChannel⟩ := required_ok readChannel
    obtain ⟨_, readThen⟩ := required_ok readThen
    obtain ⟨_, readElse⟩ := required_ok readElse
    obtain ⟨inCondition, nestCondition⟩ := parts.compound.sound readCondition
    have nestPrototype := ((faithful_prototype depth).sound readPrototype).2
    refine ⟨.cond inCondition (le_of_nat? readChannel) (le_of_blockId? readThen)
      (le_of_blockId? readElse), ?_⟩
    simp [Cond.record, Json.nesting_object_le, nestCondition,
      nestPrototype, BlockId.toJson]

theorem TermsFaithful.curry_succ (parts : TermsFaithful depth) :
    Faithful (curry? (depth + 1)) Curry.record (fun curry => curry.toTerm.Storable)
      (depth + 1) where
  complete := by
    intro curry storable nests
    cases storable with
    | curry inTask distinct inBindings =>
        simp only [Curry.record, Json.nesting_object_le, List.forall_mem_cons] at nests
        rw [Curry.record, curry?, record?_raw]
        · have readBindings := parts.bindings.complete _ ⟨distinct, inBindings⟩ nests.2.1
          obtain ⟨task, bindings⟩ := curry
          cases task with
          | none =>
              simp [Record.required, Record.optional, Json.raw,
                Record.orNull, readBindings]
          | some task =>
              have readTask := parts.compound.complete _ (inTask task rfl) nests.1
              have orNull : Record.orNull (compound? depth) (Compound.toJson task).raw =
                  some (some task) := by
                rw [← Option.map_some, ← readTask]
                rfl
              simp [Record.required, Record.optional, orNull, readBindings]
        · rfl
        · decide
  sound := by
    intro tree curry read
    simp only [curry?, Option.bind_eq_bind, Option.bind_eq_some_iff, Option.pure_def,
      Option.some.injEq] at read
    obtain ⟨record, _, task, readTask, bindings, readBindings, rfl⟩ := read
    obtain ⟨_, readBindings⟩ := required_ok readBindings
    obtain ⟨⟨distinct, inBindings⟩, nestBindings⟩ := parts.bindings.sound readBindings
    cases task with
    | none =>
        refine ⟨.curry (fun _ same => ?_) distinct inBindings,
          by simp [Curry.record, Json.nesting_object_le, nestBindings]⟩
        cases same
    | some task =>
        obtain ⟨_, readTask⟩ := optional_ok readTask
        obtain ⟨inTask, nestTask⟩ := parts.compound.sound readTask
        refine ⟨.curry (fun _ same => Option.some.inj same ▸ inTask) distinct inBindings, ?_⟩
        simp [Curry.record, Json.nesting_object_le, nestTask, nestBindings]

theorem nesting_bindings_le {bindings : Bindings} :
    (Bindings.toJson bindings).nesting ≤ depth + 1 ↔
      ∀ binding ∈ bindings, (Compound.toJson binding.2).nesting ≤ depth := by
  rw [Bindings.toJson, Term.bindingsToJson_eq, Json.nesting_object_le,
    OrderedMap.mapValues, List.forall_mem_map]

/-- Bindings are an object, so the writer has no name twice and the reader leaves none. -/
theorem TermsFaithful.bindings_succ (parts : TermsFaithful depth) :
    Faithful (bindings? (depth + 1)) Bindings.toJson Bindings.Storable (depth + 1) where
  complete := by
    intro bindings storable nests
    obtain ⟨distinct, inside⟩ := storable
    rw [nesting_bindings_le] at nests
    have read :
        (bindings.map fun binding => (binding.1, (Compound.toJson binding.2).raw)).mapM
          (fun member => (compound? depth member.2).map fun value => (member.1, value)) =
          some (bindings.map id) := by
      refine mapM_map_eq_some fun binding among => ?_
      rw [parts.compound.complete _
        (fun term inner => inside term ⟨binding, among, inner⟩) (nests binding among)]
      rfl
    rw [Bindings.toJson, Term.bindingsToJson_eq, Json.raw_object, OrderedMap.mapValues,
      List.map_map, bindings?]
    simp only [Function.comp_def, read, List.map_id, Option.map_some, distinct.ofList]
  sound := by
    intro tree bindings read
    cases tree with
    | object members =>
        obtain ⟨entries, found, rfl⟩ := Option.map_eq_some_iff.mp read
        have each {binding : String × Compound}
            (among : binding ∈ OrderedMap.ofList entries) : Compound.Storable binding.2 ∧
            (Compound.toJson binding.2).nesting ≤ depth := by
          obtain ⟨member, _, found⟩ :=
            exists_of_mapM_eq_some found (OrderedMap.mem_of_mem_ofList among)
          obtain ⟨value, read, rfl⟩ := Option.map_eq_some_iff.mp found
          exact parts.compound.sound read
        refine ⟨⟨OrderedMap.distinct_ofList entries, fun term bound => ?_⟩, ?_⟩
        · obtain ⟨binding, among, inner⟩ := bound
          exact (each among).1 term inner
        · exact nesting_bindings_le.mpr fun binding among => (each among).2
    | _ => simp [bindings?] at read

theorem TermsFaithful.compound_succ (parts : TermsFaithful depth) :
    Faithful (compound? (depth + 1)) Compound.toJson Compound.Storable (depth + 1) := by
  have array := parts.term.array
  have written
      (terms : Compound) : Compound.toJson terms = .array (terms.map Term.toJson) := by
    rw [Compound.toJson, allToJson_eq]
  refine ⟨fun terms storable nests => ?_, fun {tree terms} read => ?_⟩
  · rw [written] at nests ⊢
    exact array.complete _ storable nests
  · rw [written]
    exact array.sound read

theorem TermsFaithful.term_succ (parts : TermsFaithful depth) :
    Faithful (term? (depth + 1)) Term.toJson Term.Storable (depth + 1) where
  complete := by
    intro term storable nests
    cases term with
    | name => rfl
    | str => rfl
    | lambda lambda =>
        cases storable with
        | lambda storable =>
        simp only [Term.toJson, Json.nesting_object_le, List.forall_mem_cons] at nests
        simp [Term.toJson, Json.raw_object, term?, tagged?,
          (faithful_lambda depth).complete _ storable nests.1]
    | ticket placeholder =>
        cases storable with
        | ticket small =>
        simp only [Term.toJson, Json.nesting_object_le, List.forall_mem_cons] at nests
        simp [Term.toJson, Json.raw_object, term?, tagged?,
          (faithful_placeholder depth).complete _ small nests.1]
    | apply task bindings channel rest =>
        have written := Apply.toTerm_toJson ⟨task, bindings, channel, rest⟩
        rw [Apply.toTerm] at written
        rw [written, Json.nesting_object_le, List.forall_mem_cons] at nests
        simp [written, Json.raw_object, term?, tagged?,
          parts.application.complete ⟨task, bindings, channel, rest⟩ storable nests.1,
          Apply.toTerm]
    | cond condition prototype channel thenBlock elseBlock =>
        have written :=
          Cond.toTerm_toJson ⟨condition, prototype, channel, thenBlock, elseBlock⟩
        rw [Cond.toTerm] at written
        rw [written, Json.nesting_object_le, List.forall_mem_cons] at nests
        simp [written, Json.raw_object, term?, tagged?, Cond.toTerm,
          parts.conditional.complete ⟨condition, prototype, channel, thenBlock, elseBlock⟩
            storable nests.1]
    | curry task bindings =>
        have written := Curry.toTerm_toJson ⟨task, bindings⟩
        rw [Curry.toTerm] at written
        rw [written, Json.nesting_object_le, List.forall_mem_cons] at nests
        simp [written, Json.raw_object, term?, tagged?,
          parts.curry.complete ⟨task, bindings⟩ storable nests.1, Curry.toTerm]
  sound := by
    intro tree term read
    unfold term? at read
    split at read
    next =>
      obtain ⟨word, _, rfl⟩ := Option.map_eq_some_iff.mp read
      exact ⟨.name word, by simp [Term.toJson, Json.nesting_object_le]⟩
    next =>
      obtain ⟨value, _, rfl⟩ := Option.map_eq_some_iff.mp read
      exact ⟨.str value, by simp [Term.toJson, Json.nesting_object_le]⟩
    next =>
      obtain ⟨apply, found, rfl⟩ := Option.map_eq_some_iff.mp read
      obtain ⟨storable, nests⟩ := parts.application.sound found
      exact ⟨storable, by simpa [Apply.toTerm_toJson, Json.nesting_object_le] using nests⟩
    next =>
      obtain ⟨lambda, found, rfl⟩ := Option.map_eq_some_iff.mp read
      obtain ⟨storable, nests⟩ := (faithful_lambda depth).sound found
      exact ⟨.lambda storable, by simpa [Term.toJson, Json.nesting_object_le] using nests⟩
    next =>
      obtain ⟨cond, found, rfl⟩ := Option.map_eq_some_iff.mp read
      obtain ⟨storable, nests⟩ := parts.conditional.sound found
      exact ⟨storable, by simpa [Cond.toTerm_toJson, Json.nesting_object_le] using nests⟩
    next =>
      obtain ⟨curry, found, rfl⟩ := Option.map_eq_some_iff.mp read
      obtain ⟨storable, nests⟩ := parts.curry.sound found
      exact ⟨storable, by simpa [Curry.toTerm_toJson, Json.nesting_object_le] using nests⟩
    next =>
      obtain ⟨placeholder, found, rfl⟩ := Option.map_eq_some_iff.mp read
      obtain ⟨small, nests⟩ := (faithful_placeholder depth).sound found
      exact ⟨.ticket small, by simpa [Term.toJson, Json.nesting_object_le] using nests⟩
    next => simp at read

theorem termsFaithful (depth : Nat) : TermsFaithful depth := by
  induction depth with
  | zero =>
      have term (term : Term) : 0 < term.toJson.nesting := by
        cases term with
        | curry task bindings => cases task <;> exact Nat.succ_pos _
        | _ => exact Nat.succ_pos _
      have compound (terms : Compound) : 0 < (Compound.toJson terms).nesting := by
        simp [Compound.toJson, Json.nesting]
      have bindings (bindings : Bindings) : 0 < (Bindings.toJson bindings).nesting := by
        simp [Bindings.toJson, Json.nesting]
      exact ⟨.nothing term fun _ => rfl, .nothing compound fun _ => rfl,
        .nothing bindings fun _ => rfl, .nothing (fun _ => Nat.succ_pos _) fun _ => rfl,
        .nothing (fun _ => Nat.succ_pos _) fun _ => rfl,
        .nothing (fun _ => Nat.succ_pos _) fun _ => rfl⟩
  | succ depth parts =>
      exact ⟨parts.term_succ, parts.compound_succ, parts.bindings_succ,
        parts.application_succ, parts.conditional_succ, parts.curry_succ⟩

end Terms

section Containers

theorem faithful_blockId (depth : Nat) :
    Faithful blockId? BlockId.toJson (fun block => block.index ≤ maxBlock) depth :=
  ⟨fun _ small _ => blockId?_raw small, fun read => ⟨le_of_blockId? read, Nat.zero_le _⟩⟩

theorem orNull_blockId {block : BlockId} (small : block.index ≤ maxBlock) :
    Record.orNull blockId? block.toJson.raw = some (some block) := by
  rw [← Option.map_some, ← blockId?_raw small]
  rfl

theorem faithful_block :
    ∀ depth, Faithful (block? depth) Block.toJson Block.Storable depth := by
  refine .inside (fun _ => Nat.succ_pos _)
    fun depth => ⟨fun block storable nests => ?_, fun {tree block} read => ?_⟩
  · obtain ⟨parent, bindings⟩ := block
    simp only [Block.toJson, Json.nesting_object_le, List.forall_mem_cons] at nests
    have readBindings := (termsFaithful depth).bindings.complete _ storable.2 nests.2.1
    rw [Block.toJson, record?_raw]
    · cases parent with
      | none =>
          simp [Record.required, Record.optional, Json.raw, Record.orNull, readBindings]
      | some above =>
          simp [Record.required, Record.optional,
            orNull_blockId (storable.1 above rfl), readBindings]
    · rfl
    · decide
  · simp only [Option.bind_eq_bind, Option.bind_eq_some_iff, Option.pure_def,
      Option.some.injEq] at read
    obtain ⟨record, _, parent, readParent, bindings, readBindings, rfl⟩ := read
    obtain ⟨_, readBindings⟩ := required_ok readBindings
    obtain ⟨inBindings, nestBindings⟩ := (termsFaithful depth).bindings.sound readBindings
    cases parent with
    | none =>
        refine ⟨⟨fun _ same => ?_, inBindings⟩,
          by simp [Block.toJson, Json.nesting_object_le, nestBindings]⟩
        cases same
    | some above =>
        obtain ⟨_, readParent⟩ := optional_ok readParent
        refine ⟨⟨fun _ same => Option.some.inj same ▸ le_of_blockId? readParent,
          inBindings⟩, ?_⟩
        simp [Block.toJson, Json.nesting_object_le, nestBindings, BlockId.toJson]

theorem faithful_arena :
    ∀ depth, Faithful (arena? depth) Arena.toJson Arena.Storable depth := by
  refine .inside (fun _ => Nat.succ_pos _)
    fun depth => ⟨fun arena storable nests => ?_, fun {tree arena} read => ?_⟩
  · simp only [Arena.toJson, Json.nesting_object_le, List.forall_mem_cons] at nests
    have readBlocks := (Faithful.list faithful_block depth).complete _
      (fun block among => storable.1 block (Array.mem_toList_iff.mp among)) nests.1
    have readFree :=
      (Faithful.list faithful_blockId depth).complete _ storable.2 nests.2.1
    rw [Arena.toJson, record?_raw]
    · simp [Record.required, Record.defaulted, readBlocks, readFree]
    · rfl
    · decide
  · simp only [Option.bind_eq_bind, Option.bind_eq_some_iff, Option.pure_def,
      Option.some.injEq] at read
    obtain ⟨record, _, blocks, readBlocks, free, readFree, rfl⟩ := read
    obtain ⟨_, readBlocks⟩ := required_ok readBlocks
    obtain ⟨inBlocks, nestBlocks⟩ := (Faithful.list faithful_block depth).sound readBlocks
    have kept : (∀ slot ∈ free, slot.index ≤ maxBlock) ∧
        (Json.array (free.map BlockId.toJson)).nesting ≤ depth := by
      rcases defaulted_ok readFree with ⟨_, readFree⟩ | rfl
      · exact (Faithful.list faithful_blockId depth).sound readFree
      · exact ⟨by simp, Nat.le_trans (Nat.succ_le_succ (Nat.zero_le _)) nestBlocks⟩
    refine ⟨⟨fun block among => inBlocks block (by simpa using among), kept.1⟩, ?_⟩
    simp [Arena.toJson, Json.nesting_object_le, nestBlocks, kept.2]

theorem faithful_ticket :
    ∀ depth, Faithful (ticket? depth) Ticket.toJson Ticket.Storable depth := by
  refine .inside (fun _ => Nat.succ_pos _)
    fun depth => ⟨fun ticket storable nests => ?_, fun {tree ticket} read => ?_⟩
  · simp only [Ticket.toJson, Json.nesting_object_le, List.forall_mem_cons] at nests
    have readLambda := (faithful_foreign depth).complete _ trivial nests.2.2.1
    obtain ⟨distinct, sorted⟩ := OrderedMap.distinct_of_sorted storable.1
    have readBindings :=
      (termsFaithful depth).bindings.complete _ ⟨distinct, storable.2⟩ nests.2.2.2.1
    rw [Ticket.toJson, record?_raw]
    · simp [Record.required, digest?_raw, runId?_raw, readLambda, readBindings, sorted]
    · rfl
    · decide
  · simp only [Option.bind_eq_bind, Option.bind_eq_some_iff, Option.pure_def,
      Option.some.injEq] at read
    obtain ⟨record, _, id, _, run, _, lambda, readLambda, bindings, readBindings, rfl⟩ :=
      read
    obtain ⟨_, readLambda⟩ := required_ok readLambda
    obtain ⟨_, readBindings⟩ := required_ok readBindings
    have nestLambda := ((faithful_foreign depth).sound readLambda).2
    obtain ⟨⟨distinct, inBindings⟩, nestBindings⟩ :=
      (termsFaithful depth).bindings.sound readBindings
    have among {binding : String × Compound} :
        binding ∈ OrderedMap.sortedOfList Json.nameBefore bindings ↔ binding ∈ bindings :=
      (OrderedMap.perm_sortedOfList distinct).mem_iff
    refine ⟨⟨Json.ranks_nameBefore.sortedOfList distinct, ?_⟩, ?_⟩
    · rintro term ⟨binding, listed, inside⟩
      exact inBindings term ⟨binding, among.mp listed, inside⟩
    · have nestSorted :
          (Bindings.toJson (OrderedMap.sortedOfList Json.nameBefore bindings)).nesting ≤
          depth := by
        cases depth with
        | zero => simp [Bindings.toJson, Json.nesting] at nestBindings
        | succ depth =>
            rw [nesting_bindings_le] at nestBindings ⊢
            exact fun binding listed => nestBindings binding (among.mp listed)
      simp [Ticket.toJson, Json.nesting_object_le, nestLambda, nestSorted, Digest.toJson]

end Containers

end RawJson

section Whole

theorem Json.areItemsWhole_iff {items : List Json} :
    areItemsWhole items = true ↔ ∀ item ∈ items, item.isWhole = true := by
  induction items with
  | nil => simp [areItemsWhole]
  | cons item rest ih => simp [areItemsWhole, ih]

theorem Prototype.isWhole_toJson (prototype : Prototype) :
    prototype.toJson.isWhole = true := by
  have params : Json.areItemsWhole (prototype.params.map Param.toJson) = true := by
    rw [Json.areItemsWhole_iff, List.forall_mem_map]
    rintro (_ | _) _ <;> rfl
  have outputs : Json.areItemsWhole (prototype.outputs.map Json.string) = true := by
    rw [Json.areItemsWhole_iff, List.forall_mem_map]
    exact fun _ _ => rfl
  obtain ⟨_, _, _, rest⟩ := prototype
  cases rest <;> simp_all [Prototype.toJson, Json.strings, Json.isWhole,
    Json.areMembersWhole]

theorem ForeignLambda.isWhole_toJson (lambda : ForeignLambda) :
    lambda.toJson.isWhole = true := by
  simp [ForeignLambda.toJson, Json.isWhole, Json.areMembersWhole,
    Prototype.isWhole_toJson]

theorem Lambda.isWhole_toJson (lambda : Lambda) : lambda.toJson.isWhole = true := by
  cases lambda with
  | native lambda =>
      simp [Lambda.toJson, NativeLambda.toJson, BlockId.toJson, Json.nat, Json.isWhole,
        Json.areMembersWhole, Prototype.isWhole_toJson]
  | foreign lambda =>
      simp [Lambda.toJson, Json.isWhole, Json.areMembersWhole,
        ForeignLambda.isWhole_toJson]

mutual

theorem Term.isWhole_toJson : ∀ term : Term, term.toJson.isWhole = true
  | .name _ | .str _ => rfl
  | .lambda value =>
      by simp [toJson, Json.isWhole, Json.areMembersWhole, value.isWhole_toJson]
  | .ticket placeholder => rfl
  | .apply task bindings _ _ => by
      simp [toJson, Json.isWhole, Json.areMembersWhole, Json.nat,
        areItemsWhole_allToJson task, areMembersWhole_bindingsToJson bindings]
  | .cond condition prototype _ _ _ => by
      simp [toJson, Json.isWhole, Json.areMembersWhole, Json.nat, BlockId.toJson,
        prototype.isWhole_toJson, areItemsWhole_allToJson condition]
  | .curry none bindings => by
      simp [toJson, Json.isWhole, Json.areMembersWhole,
        areMembersWhole_bindingsToJson bindings]
  | .curry (some task) bindings => by
      simp [toJson, Json.isWhole, Json.areMembersWhole, areItemsWhole_allToJson task,
        areMembersWhole_bindingsToJson bindings]
termination_by structural term => term

theorem Term.areItemsWhole_allToJson :
    ∀ terms : List Term, Json.areItemsWhole (allToJson terms) = true
  | [] => rfl
  | term :: rest => by
      simp [allToJson, Json.areItemsWhole, isWhole_toJson term,
        areItemsWhole_allToJson rest]
termination_by structural terms => terms

theorem Term.areMembersWhole_bindingsToJson :
    ∀ bindings : List (String × List Term),
      Json.areMembersWhole (bindingsToJson bindings) = true
  | [] => rfl
  | (_, value) :: rest => by
      simp [bindingsToJson, Json.areMembersWhole, Json.isWhole,
        areItemsWhole_allToJson value, areMembersWhole_bindingsToJson rest]
termination_by structural bindings => bindings

end

theorem Block.isWhole_toJson (block : Block) : block.toJson.isWhole = true := by
  obtain ⟨parent, bindings⟩ := block
  have whole := Term.areMembersWhole_bindingsToJson bindings
  cases parent <;> simp [Block.toJson, Bindings.toJson, BlockId.toJson, Json.nat,
    Json.isWhole, Json.areMembersWhole, whole]

theorem Arena.isWhole_toJson (arena : Arena) : arena.toJson.isWhole = true := by
  have blocks : Json.areItemsWhole (arena.blocks.toList.map Block.toJson) = true := by
    rw [Json.areItemsWhole_iff, List.forall_mem_map]
    exact fun block _ => block.isWhole_toJson
  have free : Json.areItemsWhole (arena.free.map BlockId.toJson) = true := by
    rw [Json.areItemsWhole_iff, List.forall_mem_map]
    exact fun _ _ => rfl
  simp [Arena.toJson, Json.isWhole, Json.areMembersWhole, blocks, free]

end Whole

namespace RawJson

/-- The text of a value is read as the value, and what any text is read as has a text
that is read as the same. -/
structure Lossless {α : Type} (read : Nat → RawJson → Option α) (write : α → Json)
    (storable : α → Prop) : Prop where
  printed : ∀ value, storable value → (write value).nesting ≤ depthLimit →
    readText? read (write value).text = some value
  accepted : ∀ text value, readText? read text = some value →
    storable value ∧ readText? read (write value).text = some value

theorem Lossless.of_faithful {α : Type} {read : Nat → RawJson → Option α}
    {write : α → Json} {storable : α → Prop}
    (whole : ∀ value, (write value).isWhole = true)
    (faithful : Faithful (read depthLimit) write storable depthLimit) :
    Lossless read write storable := by
  have printed : ∀ value, storable value → (write value).nesting ≤ depthLimit →
      readText? read (write value).text = some value := by
    intro value good nests
    rw [readText?, ofText?_text (whole value), Option.bind_some]
    exact faithful.complete _ good nests
  refine ⟨printed, fun text value found => ?_⟩
  obtain ⟨tree, _, found⟩ := Option.bind_eq_some_iff.mp found
  obtain ⟨good, nests⟩ := faithful.sound found
  exact ⟨good, printed value good nests⟩

/-- The JSON form loses nothing of terms, lambdas, prototypes, tickets and arenas. -/
theorem lossless :
    Lossless compound? Compound.toJson Compound.Storable ∧
      Lossless lambda? Lambda.toJson Lambda.Storable ∧
      Lossless prototype? Prototype.toJson (fun _ => True) ∧
      Lossless ticket? Ticket.toJson Ticket.Storable ∧
      Lossless arena? Arena.toJson Arena.Storable := by
  refine ⟨.of_faithful (fun terms => ?_) (termsFaithful _).compound,
    .of_faithful Lambda.isWhole_toJson (faithful_lambda _),
    .of_faithful Prototype.isWhole_toJson (faithful_prototype _),
    .of_faithful (fun ticket => ?_) (faithful_ticket _),
    .of_faithful Arena.isWhole_toJson (faithful_arena _)⟩
  · exact Term.areItemsWhole_allToJson terms
  · simp [Ticket.toJson, Json.isWhole, Json.areMembersWhole, Digest.toJson,
      Bindings.toJson, ticket.lambda.isWhole_toJson, Term.areMembersWhole_bindingsToJson]

end RawJson

end TicketFlow
