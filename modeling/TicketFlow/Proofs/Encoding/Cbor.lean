import Mathlib.Algebra.Group.Nat.Defs
import Mathlib.Data.List.Lex
import Mathlib.Data.Prod.Lex
import TicketFlow.Cbor
import TicketFlow.Proofs.Data.SortedMap
import TicketFlow.Proofs.Encoding.Text

namespace TicketFlow.Cbor

/-! Canonical encodings can be taken apart.

A head tells its major type and its argument, and how long it is.  The content
behind it is as long as these two say, so no encoding goes on where another one
ends, and whatever follows, the encoded value is determined.  The order of names
is a linear one; therefore maps with the same entries are encoded alike.
-/

section Heads

variable {major other argument left right : Nat} {front back : List UInt8}

@[simp] theorem length_bigEndian (count value : Nat) :
    (bigEndian count value).length = count := by
  induction count generalizing value with
  | zero => rfl
  | succ count ih => simp [bigEndian, ih]

theorem bigEndian_injective {count : Nat} (one : left < 256 ^ count)
    (two : right < 256 ^ count) (same : bigEndian count left = bigEndian count right) :
    left = right := by
  induction count generalizing left right with
  | zero => omega
  | succ count ih =>
      obtain ⟨upper, lowest⟩ := List.append_inj same (by simp)
      have quotient : left / 256 = right / 256 := by
        rw [Nat.pow_succ'] at one two
        exact ih (Nat.div_lt_of_lt_mul one) (Nat.div_lt_of_lt_mul two) upper
      have remainder : left % 256 = right % 256 :=
        congrArg UInt8.toNat (List.singleton_inj.mp lowest)
      omega

/-- The low five bits of a head: a small argument itself, or a mark for the
width of a larger one. -/
def low (argument : Nat) : Nat :=
  if argument < 24 then argument
  else if argument < UInt8.size then 24
  else if argument < UInt16.size then 25
  else if argument < UInt32.size then 26
  else 27

/-- How many bytes of argument follow the low five bits. -/
def width (low : Nat) : Nat :=
  if low < 24 then 0 else 2 ^ (low - 24)

theorem head_eq (major argument : Nat) :
    head major argument = UInt8.ofNat (major * 32 + low argument) ::
      bigEndian (width (low argument)) argument := by
  simp only [head, low]
  split
  next small => simp [width, small, bigEndian]
  · split
    · rfl
    · split
      · rfl
      · split <;> rfl

theorem low_lt (argument : Nat) : low argument < 28 := by
  unfold low
  split
  · omega
  · split
    · omega
    · split
      · omega
      · split <;> omega

/-- An argument is its own mark, or has room in the bytes that follow. -/
theorem low_cases (fits : argument < UInt64.size) :
    low argument = argument ∧ argument < 24 ∨
      24 ≤ low argument ∧ argument < 256 ^ width (low argument) := by
  simp only [low, UInt8.size, UInt16.size, UInt32.size, UInt64.size] at *
  split
  next small => exact .inl ⟨rfl, small⟩
  · refine .inr ?_
    split
    next fits => exact ⟨Nat.le_refl _, by simpa [width] using fits⟩
    · split
      next fits => exact ⟨by omega, by simpa [width] using fits⟩
      · split
        next fits => exact ⟨by omega, by simpa [width] using fits⟩
        · exact ⟨by omega, by simpa [width] using fits⟩

/-- A head can be split off whatever follows it. -/
theorem head_injective (one : major < 8) (two : other < 8)
    (fits : left < UInt64.size) (fitsToo : right < UInt64.size)
    (same : head major left ++ front = head other right ++ back) :
    major = other ∧ left = right ∧ front = back := by
  rw [head_eq, head_eq, List.cons_append, List.cons_append, List.cons.injEq] at same
  obtain ⟨first, rest⟩ := same
  have one_low := low_lt left
  have two_low := low_lt right
  have lead : (major * 32 + low left) % 256 = (other * 32 + low right) % 256 :=
    congrArg UInt8.toNat first
  have majors : major = other := by omega
  have lows : low left = low right := by omega
  rw [lows] at rest
  obtain ⟨arguments, tails⟩ := List.append_inj rest (by simp)
  refine ⟨majors, ?_, tails⟩
  rcases low_cases fits with ⟨itself, small⟩ | ⟨wide, room⟩
  · rcases low_cases fitsToo with ⟨itselfToo, _⟩ | ⟨wide, _⟩ <;> omega
  · rcases low_cases fitsToo with ⟨itself, small⟩ | ⟨_, roomToo⟩
    · omega
    · exact bigEndian_injective (lows ▸ room) roomToo arguments

end Heads

section Values

mutual

/-- Every length and every number has room in a head, and nothing is a
floating point number. -/
def isWritable : Cbor → Bool
  | .null | .bool _ => true
  | .unsigned value | .negative value => decide (value < UInt64.size)
  | .float _ => false
  | .bytes value => decide (value.length < UInt64.size)
  | .text value => decide ((Text.bytes value).length < UInt64.size)
  | .array items => decide (items.length < UInt64.size) && areItemsWritable items
  | .map entries => decide (entries.length < UInt64.size) && areEntriesWritable entries
termination_by structural value => value

def areItemsWritable : List Cbor → Bool
  | [] => true
  | item :: rest => item.isWritable && areItemsWritable rest
termination_by structural items => items

def areEntriesWritable : List (String × Cbor) → Bool
  | [] => true
  | (name, value) :: rest =>
      decide ((Text.bytes name).length < UInt64.size) && value.isWritable &&
        areEntriesWritable rest
termination_by structural entries => entries

end

def major : Cbor → Nat
  | .unsigned _ => 0
  | .negative _ => 1
  | .bytes _ => 2
  | .text _ => 3
  | .array _ => 4
  | .map _ => 5
  | .null | .bool _ | .float _ => 7

def argument : Cbor → Nat
  | .unsigned value | .negative value => value
  | .bytes value => value.length
  | .text value => (Text.bytes value).length
  | .array items => items.length
  | .map entries => entries.length
  | .bool value => 20 + value.toNat
  | .null | .float _ => 22

def content : Cbor → List UInt8
  | .bytes value => value
  | .text value => Text.bytes value
  | .array items => encodeItems items
  | .map entries => encodeEntries entries
  | _ => []

variable {value left right : Cbor} {front back : List UInt8}

theorem major_lt (value : Cbor) : value.major < 8 := by
  cases value <;> simp [major]

theorem argument_lt (writable : value.isWritable = true) :
    value.argument < UInt64.size := by
  cases value with
  | bool value => cases value <;> decide
  | _ => simp_all [isWritable, argument, UInt64.size]

theorem encode_eq (writable : value.isWritable = true) :
    value.encode = head value.major value.argument ++ value.content := by
  cases value with
  | bool value => cases value <;> rfl
  | float value => simp [isWritable] at writable
  | unsigned value | negative value => simp [encode, major, argument, content]
  | _ => rfl

/-- What an encoding begins with says what kind of value it is of, and
how much there is of it. -/
theorem split_encode (writable : left.isWritable = true)
    (writableToo : right.isWritable = true)
    (same : left.encode ++ front = right.encode ++ back) :
    left.major = right.major ∧ left.argument = right.argument ∧
      left.content ++ front = right.content ++ back := by
  rw [encode_eq writable, encode_eq writableToo, List.append_assoc,
    List.append_assoc] at same
  exact head_injective left.major_lt right.major_lt (argument_lt writable)
    (argument_lt writableToo) same

mutual

/-- No encoding is the beginning of another one, and different values
are encoded differently. -/
theorem encode_injective :
    ∀ (left : Cbor) {right : Cbor}
      {front back : List UInt8}, left.isWritable = true → right.isWritable = true →
      left.encode ++ front = right.encode ++ back → left = right ∧ front = back
  | .null, right, _, _, writable, writableToo, same => by
      obtain ⟨majors, arguments, contents⟩ := split_encode writable writableToo same
      cases right with
      | null => exact ⟨rfl, contents⟩
      | bool two =>
          have bit := two.toNat_le
          simp only [argument] at arguments
          omega
      | _ => simp_all [major, isWritable]
  | .bool one, right, _, _, writable, writableToo, same => by
      obtain ⟨majors, arguments, contents⟩ := split_encode writable writableToo same
      cases right with
      | null =>
          have bit := one.toNat_le
          simp only [argument] at arguments
          omega
      | bool two => cases one <;> cases two <;> simp_all [argument, content]
      | _ => simp_all [major, isWritable]
  | .unsigned one, right, _, _, writable, writableToo, same => by
      obtain ⟨majors, arguments, contents⟩ := split_encode writable writableToo same
      cases right <;> simp_all [major, argument, content]
  | .negative one, right, _, _, writable, writableToo, same => by
      obtain ⟨majors, arguments, contents⟩ := split_encode writable writableToo same
      cases right <;> simp_all [major, argument, content]
  | .float one, _, _, _, writable, _, _ => by simp [isWritable] at writable
  | .bytes one, right, _, _, writable, writableToo, same => by
      obtain ⟨majors, arguments, contents⟩ := split_encode writable writableToo same
      cases right <;> simp [major] at majors
      next two =>
        obtain ⟨rfl, rest⟩ := List.append_inj contents arguments
        exact ⟨rfl, rest⟩
  | .text one, right, _, _, writable, writableToo, same => by
      obtain ⟨majors, arguments, contents⟩ := split_encode writable writableToo same
      cases right <;> simp [major] at majors
      next two =>
        obtain ⟨bytes, rest⟩ := List.append_inj contents arguments
        exact ⟨congrArg text (Text.bytes_injective bytes), rest⟩
  | .array one, right, _, _, writable, writableToo, same => by
      obtain ⟨majors, arguments, contents⟩ := split_encode writable writableToo same
      cases right <;> simp [major] at majors
      next two =>
        simp only [isWritable, Bool.and_eq_true] at writable writableToo
        obtain ⟨rfl, rest⟩ :=
          encodeItems_injective one writable.2 writableToo.2 arguments contents
        exact ⟨rfl, rest⟩
  | .map one, right, _, _, writable, writableToo, same => by
      obtain ⟨majors, arguments, contents⟩ := split_encode writable writableToo same
      cases right <;> simp [major] at majors
      next two =>
        simp only [isWritable, Bool.and_eq_true] at writable writableToo
        obtain ⟨rfl, rest⟩ :=
          encodeEntries_injective one writable.2 writableToo.2 arguments contents
        exact ⟨rfl, rest⟩
termination_by structural left => left

theorem encodeItems_injective :
    ∀ (left : List Cbor) {right : List Cbor}
      {front back : List UInt8}, areItemsWritable left = true →
      areItemsWritable right = true → left.length = right.length →
      encodeItems left ++ front = encodeItems right ++ back → left = right ∧ front = back
  | [], [], _, _, _, _, _, same => ⟨rfl, same⟩
  | one :: lefts, two :: rights, _, _, writable, writableToo, size, same => by
      simp only [areItemsWritable, Bool.and_eq_true] at writable writableToo
      rw [encodeItems, encodeItems, List.append_assoc, List.append_assoc] at same
      obtain ⟨rfl, later⟩ := encode_injective one writable.1 writableToo.1 same
      obtain ⟨rfl, rest⟩ :=
        encodeItems_injective lefts writable.2 writableToo.2 (Nat.succ.inj size) later
      exact ⟨rfl, rest⟩
termination_by structural left => left

theorem encodeEntries_injective :
    ∀ (left : List (String × Cbor)) {right : List (String × Cbor)}
      {front back : List UInt8}, areEntriesWritable left = true →
      areEntriesWritable right = true → left.length = right.length →
      encodeEntries left ++ front = encodeEntries right ++ back →
      left = right ∧ front = back
  | [], [], _, _, _, _, _, same => ⟨rfl, same⟩
  | (name, one) :: lefts, (other, two) :: rights, _, _, writable, writableToo,
      size, same => by
      simp only [areEntriesWritable, Bool.and_eq_true,
        decide_eq_true_eq] at writable writableToo
      obtain ⟨⟨short, writable⟩, lefts_writable⟩ := writable
      obtain ⟨⟨shortToo, writableToo⟩, rights_writable⟩ := writableToo
      simp only [encodeEntries, textBytes, List.append_assoc] at same
      obtain ⟨_, sizes, names⟩ :=
        head_injective (by decide) (by decide) short shortToo same
      obtain ⟨bytes, values⟩ := List.append_inj names sizes
      obtain rfl := Text.bytes_injective bytes
      obtain ⟨rfl, later⟩ := encode_injective one writable writableToo values
      obtain ⟨rfl, rest⟩ :=
        encodeEntries_injective lefts lefts_writable rights_writable (Nat.succ.inj size) later
      exact ⟨rfl, rest⟩
termination_by structural left => left

end

theorem canonical_injective (writable : left.isWritable = true)
    (writableToo : right.isWritable = true) :
    left.canonical = right.canonical ↔ left = right := by
  refine ⟨fun same => ?_, congrArg canonical⟩
  have encodings : left.encode ++ [] = right.encode ++ [] := by
    rw [List.append_nil, List.append_nil]
    exact List.append_cancel_left same
  exact (encode_injective left writable writableToo encodings).1

end Values

section Names

/-- What names are ordered by: their size, then their bytes. -/
def rank (name : String) : Lex (Nat × List Nat) :=
  toLex ((Text.bytes name).length, (Text.bytes name).map UInt8.toNat)

theorem bytesBefore_iff (left right : List UInt8) :
    bytesBefore left right = true ↔ left.map UInt8.toNat < right.map UInt8.toNat := by
  fun_induction bytesBefore left right with
  | case1 => simp
  | case2 => simp
  | case3 left lefts rights ih => simp [ih]
  | case4 left lefts right rights apart =>
      have different : left.toNat ≠ right.toNat :=
        fun same => apart (UInt8.toNat_inj.mp same)
      simp [List.cons_lt_cons_iff, different, UInt8.lt_iff_toNat_lt]

theorem ranks_nameBefore : OrderedMap.Ranks nameBefore rank where
  injective left right same := by
    have bytes : (Text.bytes left).map UInt8.toNat = (Text.bytes right).map UInt8.toNat :=
      congrArg (fun ranked => (ofLex ranked).2) same
    exact Text.bytes_injective
      (List.map_injective_iff.mpr (fun _ _ => UInt8.toNat_inj.mp) bytes)
  before_iff {left right} := by
    rw [rank, rank, Prod.Lex.toLex_lt_toLex]
    simp only [nameBefore]
    split
    next same => simp [same, bytesBefore_iff]
    next different => simp [different]

/-- Maps with the same entries are one value. -/
theorem sortedMap_eq_iff {left right : List (String × Cbor)}
    (one : OrderedMap.Distinct left) (two : OrderedMap.Distinct right) :
    sortedMap left = sortedMap right ↔
      ∀ name, OrderedMap.get? left name = OrderedMap.get? right name := by
  rw [sortedMap, sortedMap, map.injEq]
  exact ranks_nameBefore.sortedOfList_eq_iff one two

/-- So are maps with the same names in the same order, just if they are equal. -/
theorem sortedMap_record_eq_iff {left right : List (String × Cbor)}
    (distinct : OrderedMap.Distinct left)
    (named : OrderedMap.keys left = OrderedMap.keys right) :
    sortedMap left = sortedMap right ↔ left = right := by
  have distinctToo : OrderedMap.Distinct right := by rwa [OrderedMap.Distinct, ← named]
  rw [sortedMap_eq_iff distinct distinctToo]
  exact ⟨distinct.eq_of_keys named, fun same name => by rw [same]⟩

theorem areEntriesWritable_iff {entries : List (String × Cbor)} :
    areEntriesWritable entries = true ↔ ∀ entry ∈ entries,
      (Text.bytes entry.1).length < UInt64.size ∧ entry.2.isWritable = true := by
  induction entries with
  | nil => simp [areEntriesWritable]
  | cons entry rest ih => simp [areEntriesWritable, ih]

theorem isWritable_sortedMap {entries : List (String × Cbor)}
    (distinct : OrderedMap.Distinct entries)
    (writable : (Cbor.map entries).isWritable = true) :
    (sortedMap entries).isWritable = true := by
  have perm : (OrderedMap.sortedOfList nameBefore entries).Perm entries :=
    OrderedMap.perm_sortedOfList distinct
  simp only [isWritable, Bool.and_eq_true, areEntriesWritable_iff,
    sortedMap] at writable ⊢
  rw [perm.length_eq]
  exact ⟨writable.1, fun entry member => writable.2 entry (perm.mem_iff.mp member)⟩

end Names

end TicketFlow.Cbor
