import TicketFlow.Proofs.Encoding.Lossless

namespace TicketFlow

/-! JSON values read from their own text.

An object is read with its members in the order of their names, whatever order
they were written in.  So what is read is the value that was written with
objects compared as maps, and it is this very value if it was in order.  The
text has no control characters in it, not even line breaks that stand in a
string.
-/

section Maps

open RawJson.Numeral (maxSignificand)

/-- Whole numbers have 64 bits, signed or not, there are no others, and no name
occurs twice in an object. -/
inductive Json.Storable : Json → Prop where
  | null : Storable .null
  | bool (value : Bool) : Storable (.bool value)
  | whole {value : Int} :
      Int64.minValue.toInt ≤ value → value ≤ maxSignificand →
      Storable (.number (.whole value))
  | string (value : String) : Storable (.string value)
  | array {items : List Json} : (∀ item ∈ items, Storable item) → Storable (.array items)
  | object {members : List (String × Json)} :
      OrderedMap.Distinct members →
      (∀ member ∈ members, Storable member.2) → Storable (.object members)

/-- The members of every object are in the order of their names. -/
inductive Json.InOrder : Json → Prop where
  | null : InOrder .null
  | bool (value : Bool) : InOrder (.bool value)
  | number (value : Json.Number) : InOrder (.number value)
  | string (value : String) : InOrder (.string value)
  | array {items : List Json} : (∀ item ∈ items, InOrder item) → InOrder (.array items)
  | object {members : List (String × Json)} :
      members.Pairwise (fun left right => left.1 < right.1) →
      (∀ member ∈ members, InOrder member.2) → InOrder (.object members)

mutual

/-- The same value, with objects compared as maps. -/
inductive Json.SameAs : Json → Json → Prop where
  | null : SameAs .null .null
  | bool (value : Bool) : SameAs (.bool value) (.bool value)
  | number (value : Json.Number) : SameAs (.number value) (.number value)
  | string (value : String) : SameAs (.string value) (.string value)
  | array {items others : List Json} :
      AreSame items others → SameAs (.array items) (.array others)
  | object {members others shuffled : List (String × Json)} :
      MembersSame members others → others.Perm shuffled →
      SameAs (.object members) (.object shuffled)

inductive Json.AreSame : List Json → List Json → Prop where
  | nil : AreSame [] []
  | cons {item other : Json} {rest others : List Json} :
      SameAs item other → AreSame rest others → AreSame (item :: rest) (other :: others)

inductive Json.MembersSame : List (String × Json) → List (String × Json) → Prop where
  | nil : MembersSame [] []
  | cons {name : String} {value other : Json} {rest others : List (String × Json)} :
      SameAs value other → MembersSame rest others →
      MembersSame ((name, value) :: rest) ((name, other) :: others)

end

mutual

/-- The value with the members of every object in the order of their names. -/
def Json.ordered : Json → Json
  | .null => .null
  | .bool value => .bool value
  | .number value => .number value
  | .string value => .string value
  | .array items => .array (orderedItems items)
  | .object members =>
      .object (OrderedMap.sortedOfList nameBefore (orderedMembers members))
termination_by structural value => value

def Json.orderedItems : List Json → List Json
  | [] => []
  | item :: rest => item.ordered :: orderedItems rest
termination_by structural items => items

def Json.orderedMembers : List (String × Json) → List (String × Json)
  | [] => []
  | (name, value) :: rest => (name, value.ordered) :: orderedMembers rest
termination_by structural members => members

end

namespace Json

variable {value : Json} {members : List (String × Json)}

theorem orderedItems_eq (items : List Json) : orderedItems items = items.map ordered := by
  induction items with
  | nil => rfl
  | cons item rest ih => rw [orderedItems, ih, List.map_cons]

theorem orderedMembers_eq (members : List (String × Json)) :
    orderedMembers members = OrderedMap.mapValues ordered members := by
  induction members with
  | nil => rfl
  | cons member rest ih =>
      rw [orderedMembers, ih, OrderedMap.mapValues, OrderedMap.mapValues, List.map_cons]

theorem distinct_orderedMembers (distinct : OrderedMap.Distinct members) :
    OrderedMap.Distinct (orderedMembers members) := by
  rwa [orderedMembers_eq, OrderedMap.Distinct, OrderedMap.keys_mapValues]

mutual

theorem sameAs_ordered : ∀ {value : Json}, value.Storable → value.SameAs value.ordered
  | .null, _ => .null
  | .bool value, _ => .bool value
  | .number value, _ => .number value
  | .string value, _ => .string value
  | .array _, .array each => .array (areSame_orderedItems each)
  | .object _, .object distinct each =>
      .object (membersSame_orderedMembers each)
        (OrderedMap.perm_sortedOfList (distinct_orderedMembers distinct)).symm
termination_by structural value => value

theorem areSame_orderedItems :
    ∀ {items : List Json}, (∀ item ∈ items, item.Storable) →
      AreSame items (orderedItems items)
  | [], _ => .nil
  | _ :: _, each =>
      .cons (sameAs_ordered (each _ List.mem_cons_self))
        (areSame_orderedItems fun item among => each item (List.mem_cons_of_mem _ among))
termination_by structural items => items

theorem membersSame_orderedMembers : ∀ {members : List (String × Json)},
    (∀ member ∈ members, member.2.Storable) → MembersSame members (orderedMembers members)
  | [], _ => .nil
  | (_, _) :: _, each =>
      .cons (sameAs_ordered (each _ List.mem_cons_self))
        (membersSame_orderedMembers
          fun member among => each member (List.mem_cons_of_mem _ among))
termination_by structural members => members

end

/-- Where all members are in order already, nothing is moved. -/
theorem InOrder.ordered_eq (inOrder : value.InOrder) : value.ordered = value := by
  induction inOrder with
  | null | bool | number | string => rfl
  | array _ each => rw [ordered, orderedItems_eq, List.map_congr_left each, List.map_id']
  | object sorted _ each =>
      rw [ordered, orderedMembers_eq, OrderedMap.mapValues_eq_self each,
        (OrderedMap.distinct_of_sorted sorted).2]

end Json

end Maps

section Reading

open RawJson.Numeral (maxSignificand)

namespace Json

variable {value : Json} {members : List (String × Json)}

theorem areMembersWhole_iff :
    areMembersWhole members = true ↔ ∀ member ∈ members, member.2.isWhole = true := by
  induction members with
  | nil => simp [areMembersWhole]
  | cons member rest ih => simp [areMembersWhole, ih]

theorem Storable.isWhole (storable : value.Storable) : value.isWhole = true := by
  induction storable with
  | null | bool | whole | string => rfl
  | array _ each => exact areItemsWhole_iff.mpr each
  | object _ _ each => exact areMembersWhole_iff.mpr each

end Json

namespace RawJson

variable {value : Json} {depth : Nat}

/-- A whole number of 64 bits, signed or not, is read from the digits of its size. -/
theorem Numeral.number?_decimal {value : Int} (least : Int64.minValue.toInt ≤ value)
    (most : value ≤ maxSignificand) :
    Numeral.number? ⟨decide (value < 0), decimal value.natAbs, [], none, false⟩ =
      some (.whole value) := by
  have size : signed (decide (value < 0)) (natOfDigits (decimal value.natAbs)) = value := by
    rw [natOfDigits_decimal, signed]
    split
    next negative => have := of_decide_eq_true negative; omega
    next positive =>
        have := of_decide_eq_false (Bool.eq_false_of_not_eq_true positive); omega
  have read : whole? ⟨decide (value < 0), decimal value.natAbs, [], none, false⟩ =
      some value := by
    simp [whole?, size]
  rw [number?, read]
  by_cases negative : value < 0
  · simp only [negative, least, decide_true, and_self, if_true]
  · simp only [negative, most, decide_false, Bool.false_eq_true, if_false, if_true]

theorem itemsToJson?_eq (items : List RawJson) :
    itemsToJson? depth items = items.mapM (toJson? depth) := by
  induction items with
  | nil => rfl
  | cons item rest ih =>
      rw [itemsToJson?, ih, List.mapM_cons]
      cases item.toJson? depth <;> cases rest.mapM (toJson? depth) <;> rfl

/-- A member of an object, with its value read. -/
def readMember? (depth : Nat) (member : String × RawJson) : Option (String × Json) :=
  (member.2.toJson? depth).map fun value => (member.1, value)

theorem membersToJson?_eq (members : List (String × RawJson)) :
    membersToJson? depth members = members.mapM (readMember? depth) := by
  induction members with
  | nil => rfl
  | cons member rest ih =>
      rw [membersToJson?, ih, List.mapM_cons, readMember?]
      cases member.2.toJson? depth <;> cases rest.mapM (readMember? depth) <;> rfl

theorem mapM_eq_none {α β : Type} {parse : α → Option β} {items : List α} {item : α}
    (among : item ∈ items) (unread : parse item = none) : items.mapM parse = none := by
  induction items with
  | nil => simp at among
  | cons first rest ih =>
      rw [List.mapM_cons]
      rcases List.mem_cons.mp among with rfl | later
      · rw [unread]
        rfl
      · rw [ih later]
        cases parse first <;> rfl

/-- A value that nests no deeper than is allowed is read in order. -/
theorem toJson?_raw (storable : value.Storable) (nests : value.nesting ≤ depth) :
    value.raw.toJson? depth = some value.ordered := by
  induction storable generalizing depth with
  | null | bool | string => cases depth <;> rfl
  | whole least most =>
      cases depth <;> simp [Json.raw, toJson?,
        Numeral.number?_decimal least most, Json.ordered]
  | array _ each =>
      cases depth with
      | zero => simp [Json.nesting] at nests
      | succ depth =>
          have inside := Json.nesting_array_le.mp nests
          rw [Json.raw, toJson?, itemsToJson?_eq, Json.rawItems_eq,
            mapM_map_eq_some fun item among => each item among (inside item among),
            ← Json.orderedItems_eq]
          rfl
  | @object members _ _ each =>
      cases depth with
      | zero => simp [Json.nesting] at nests
      | succ depth =>
          have inside := Json.nesting_object_le.mp nests
          have read : ∀ member ∈ members, readMember? depth (member.1, member.2.raw) =
              some (member.1, member.2.ordered) := by
            intro member among
            rw [readMember?, each member among (inside member among), Option.map_some]
          rw [Json.raw_object, toJson?, membersToJson?_eq, mapM_map_eq_some read,
            Json.ordered, Json.orderedMembers_eq]
          rfl

/-- A value that nests deeper is not read at all. -/
theorem toJson?_raw_eq_none (storable : value.Storable) (deep : depth < value.nesting) :
    value.raw.toJson? depth = none := by
  induction storable generalizing depth with
  | null | bool | string | whole => exact absurd deep (Nat.not_lt_zero _)
  | array _ each =>
      cases depth with
      | zero => rfl
      | succ depth =>
          have further := Nat.not_le.mpr deep
          simp only [Json.nesting_array_le, not_forall, Nat.not_le] at further
          obtain ⟨item, among, deeper⟩ := further
          rw [Json.raw, toJson?, itemsToJson?_eq, Json.rawItems_eq,
            mapM_eq_none (List.mem_map_of_mem among) (each item among deeper)]
          rfl
  | object _ _ each =>
      cases depth with
      | zero => rfl
      | succ depth =>
          have further := Nat.not_le.mpr deep
          simp only [Json.nesting_object_le, not_forall, Nat.not_le] at further
          obtain ⟨member, among, deeper⟩ := further
          have unread : readMember? depth (member.1, member.2.raw) = none := by
            rw [readMember?, each member among deeper, Option.map_none]
          rw [Json.raw_object, toJson?, membersToJson?_eq,
            mapM_eq_none (List.mem_map.mpr ⟨member, among, rfl⟩) unread]
          rfl

end RawJson

end Reading

section Controls

/-- The characters of a line without controls: tabulators and line breaks are controls too. -/
def Json.Plain (chars : List Char) : Prop :=
  ∀ c ∈ chars, 0x20 ≤ c.toNat

namespace Json

instance (chars : List Char) : Decidable (Plain chars) :=
  List.decidableBAll (fun c : Char => 0x20 ≤ c.toNat) chars

variable {left right : List Char} {c : Char}

theorem plain_nil : Plain [] :=
  List.forall_mem_nil _

theorem plain_cons : Plain (c :: right) ↔ 0x20 ≤ c.toNat ∧ Plain right :=
  List.forall_mem_cons

theorem plain_append : Plain (left ++ right) ↔ Plain left ∧ Plain right :=
  List.forall_mem_append

theorem plain_hexPair {code : Nat} (control : code < 0x20) : Plain (hexPair code) := by
  have each : ∀ code : Fin 0x20, Plain (hexPair code) := by decide
  exact each ⟨code, control⟩

/-- What stands for a control is not a control. -/
theorem plain_escape (c : Char) : Plain (escape c) := by
  have marked (mark : Char) (printed : 0x20 ≤ mark.toNat) : Plain ['\\', mark] := by
    simp [Plain, printed]
  simp only [escape]
  split
  next same => exact marked c (by omega)
  split
  next same => exact marked c (by omega)
  split
  next => exact marked 'b' (by decide)
  split
  next => exact marked 'f' (by decide)
  split
  next => exact marked 'n' (by decide)
  split
  next => exact marked 'r' (by decide)
  split
  next => exact marked 't' (by decide)
  split
  next control => exact plain_append.mpr ⟨by decide, plain_hexPair control⟩
  next printed => exact plain_cons.mpr ⟨Nat.not_lt.mp printed, plain_nil⟩

theorem plain_stringChars (text : String) : Plain (stringChars text) := by
  have mark : 0x20 ≤ quotation.toNat := by decide
  refine plain_cons.mpr
    ⟨mark, plain_append.mpr ⟨fun c among => ?_, plain_cons.mpr ⟨mark, plain_nil⟩⟩⟩
  obtain ⟨written, _, inside⟩ := List.mem_flatMap.mp among
  exact plain_escape written c inside

theorem plain_whole (value : Int) : Plain (Number.whole value).chars := by
  rw [RawJson.whole_chars]
  refine plain_append.mpr ⟨by split <;> decide, fun c among => ?_⟩
  have digit : 48 ≤ c.toNat ∧ c.toNat ≤ 57 := by
    simpa [Char.isDigit, UInt32.le_iff_toNat_le]
      using Nat.isDigit_of_mem_toDigits (by decide) (by decide) among
  exact Nat.le_trans (by decide) digit.1

theorem plain_separated {parts : List (List Char)} (each : ∀ part ∈ parts, Plain part) :
    Plain (separated ',' parts) := by
  fun_induction separated ',' parts with
  | case1 => exact plain_nil
  | case2 last => exact each last List.mem_cons_self
  | case3 first second rest ih =>
      obtain ⟨plain, later⟩ := List.forall_mem_cons.mp each
      exact plain_append.mpr ⟨plain, plain_cons.mpr ⟨by decide, ih later⟩⟩

theorem itemChars_eq (items : List Json) : itemChars items = items.map chars := by
  induction items with
  | nil => rfl
  | cons item rest ih => rw [itemChars, ih, List.map_cons]

theorem memberChars_eq (members : List (String × Json)) :
    memberChars members =
      members.map fun member => stringChars member.1 ++ ':' :: member.2.chars := by
  induction members with
  | nil => rfl
  | cons member rest ih => rw [memberChars, ih, List.map_cons]

theorem plain_between {opening closing : Char} {inside : List Char}
    (opens : 0x20 ≤ opening.toNat) (plain : Plain inside)
    (closes : 0x20 ≤ closing.toNat) : Plain (opening :: (inside ++ [closing])) :=
  plain_cons.mpr ⟨opens, plain_append.mpr ⟨plain, plain_cons.mpr ⟨closes, plain_nil⟩⟩⟩

/-- The text of a value is one line. -/
theorem Storable.plain {value : Json} (storable : value.Storable) :
    Plain value.chars := by
  induction storable with
  | null => decide
  | bool value => cases value <;> decide
  | whole => exact plain_whole _
  | string value => exact plain_stringChars value
  | array _ each =>
      rw [chars, itemChars_eq]
      exact plain_between (by decide)
        (plain_separated (List.forall_mem_map.mpr each)) (by decide)
  | object _ _ each =>
      rw [chars, memberChars_eq]
      refine plain_between (by decide)
        (plain_separated (List.forall_mem_map.mpr fun member among => ?_)) (by decide)
      exact plain_append.mpr
        ⟨plain_stringChars member.1, plain_cons.mpr ⟨by decide, each member among⟩⟩

end Json

end Controls

end TicketFlow
