import TicketFlow.Json.Raw

namespace TicketFlow

/-! A JSON text says what was written.

A string is read back character by character, whatever is escaped in it, and a
whole number digit by digit.  Both end where they were made to end, and so the
text of a value, with something behind it that does not go on with a number, is
read as the value and leaves what is behind it.
-/

namespace RawJson

section Strings

variable {c : Char} {rest : List Char}

theorem hexDigit?_digitChar {code : Nat} (small : code < 16) :
    hexDigit? (Nat.digitChar code) = some code := by
  have each : ∀ nibble : Fin 16, hexDigit? (Nat.digitChar nibble) = some nibble.val := by
    decide
  exact each ⟨code, small⟩

theorem pieces_unmarked (unmarked : c ≠ '\\') : pieces (c :: rest) =
    if c = Json.quotation then some ([], rest)
    else if c.toNat < 0x20 then none
    else (pieces rest).map fun found => (.char c :: found.1, found.2) := by
  rw [pieces.eq_def]
  split
  next named => simp at named
  next named => exact absurd (List.cons.inj named).1 unmarked
  next named => exact absurd (List.cons.inj named).1 unmarked
  next named =>
    obtain ⟨rfl, rfl⟩ := List.cons.inj named
    simp only [unmarked, false_or]

theorem pieces_marked {mark : Char} (short : escaped? mark = some c) :
    pieces ('\\' :: mark :: rest) =
      (pieces rest).map fun found => (.char c :: found.1, found.2) := by
  have other : mark ≠ 'u' := by
    rintro rfl
    rw [show escaped? 'u' = none by decide] at short
    cases short
  rw [pieces.eq_def]
  split
  next named => simp at named
  next named => simp_all
  next named =>
    obtain ⟨rfl, rfl⟩ : mark = _ ∧ rest = _ := by simpa using named
    cases pieces rest <;> simp [short]
  next unmarked named =>
    obtain ⟨rfl, rfl⟩ : '\\' = _ ∧ mark :: rest = _ := by simpa using named
    exact absurd rfl (unmarked mark rest rfl)

theorem pieces_numbered {code : Nat} (control : code < 0x20) :
    pieces (['\\', 'u', '0', '0'] ++ Json.hexPair code ++ rest) =
      (pieces rest).map fun found => (.char (Char.ofNat code) :: found.1, found.2) := by
  have high : hexDigit? (Nat.digitChar (code / 16)) = some (code / 16) :=
    hexDigit?_digitChar (by omega)
  have low : hexDigit? (Nat.digitChar (code % 16)) = some (code % 16) :=
    hexDigit?_digitChar (by omega)
  have zero : hexDigit? '0' = some 0 := by decide
  have joined : ((0 * 16 + 0) * 16 + code / 16) * 16 + code % 16 = code := by omega
  have piece : pieceOfUnit code = .char (Char.ofNat code) := if_neg (by omega)
  simp only [Json.hexPair, List.cons_append, List.nil_append, pieces, zero, high, low]
  cases pieces rest with
  | none => rfl
  | some found => simp only [joined, piece, Option.map_some]

/-- Whatever stands for a character is read as the character. -/
theorem pieces_escape (c : Char) (rest : List Char) :
    pieces (Json.escape c ++ rest) =
      (pieces rest).map fun found => (.char c :: found.1, found.2) := by
  have coded {code : Nat} (same : c.toNat = code) : c = Char.ofNat code := by
    rw [← same, Char.ofNat_toNat]
  simp only [Json.escape]
  split
  next same => exact pieces_marked (by rw [coded same]; decide)
  split
  next same => exact pieces_marked (by rw [coded same]; decide)
  split
  next same => exact pieces_marked (by rw [coded same]; decide)
  split
  next same => exact pieces_marked (by rw [coded same]; decide)
  split
  next same => exact pieces_marked (by rw [coded same]; decide)
  split
  next same => exact pieces_marked (by rw [coded same]; decide)
  split
  next same => exact pieces_marked (by rw [coded same]; decide)
  split
  next control => rw [pieces_numbered control, Char.ofNat_toNat]
  next quoted slash _ _ _ _ _ printed =>
    rw [List.singleton_append, pieces_unmarked fun same => slash (by rw [same]; decide),
      if_neg fun same => quoted (by rw [same]; decide), if_neg printed]

theorem pieces_escaped (text : List Char) (rest : List Char) :
    pieces (text.flatMap Json.escape ++ Json.quotation :: rest) =
      some (text.map .char, rest) := by
  induction text with
  | nil => exact pieces_unmarked (by decide)
  | cons c text ih =>
      rw [List.flatMap_cons, List.append_assoc, pieces_escape, ih]
      rfl

theorem joinPieces_chars (text : List Char) :
    joinPieces (text.map .char) = some text := by
  induction text with
  | nil => rfl
  | cons c text ih => rw [List.map_cons, joinPieces, ih, Option.map_some]

/-- A string ends at its closing mark, and is what was written. -/
theorem stringBody_escaped (text : String) (rest : List Char) :
    stringBody (text.toList.flatMap Json.escape ++ Json.quotation :: rest) =
      some (some text, rest) := by
  rw [stringBody, pieces_escaped, Option.map_some, joinPieces_chars, Option.map_some,
    String.ofList_toList]

end Strings

section Numbers

variable {rest : List Char} {size : Nat}

/-- The digits of a number, the first one first. -/
def decimal (size : Nat) : List Nat :=
  (Nat.toDigits 10 size).map fun c => c.toNat - 48

/-- Behind a value stands nothing, or a mark that belongs to what the value is in. -/
def Closes (rest : List Char) : Prop :=
  ∀ c ∈ rest.head?, c = ',' ∨ c = ']' ∨ c = '}'

theorem Closes.digits (closes : Closes rest) : RawJson.digits rest = ([], rest) := by
  cases rest with
  | nil => rfl
  | cons c rest => rcases closes c rfl with rfl | rfl | rfl <;> rfl

theorem Closes.ends (closes : Closes rest) :
    fractionPart rest = some ((false, []), rest) ∧
      exponentPart rest = some (none, rest) := by
  cases rest with
  | nil => exact ⟨rfl, rfl⟩
  | cons c rest => rcases closes c rfl with rfl | rfl | rfl <;> exact ⟨rfl, rfl⟩

theorem digits_append {text : List Char} (all : ∀ c ∈ text, c.isDigit = true) :
    digits (text ++ rest) =
      (text.map (fun c => c.toNat - 48) ++ (digits rest).1, (digits rest).2) := by
  induction text with
  | nil => rfl
  | cons c text ih =>
      obtain ⟨digit, later⟩ := List.forall_mem_cons.mp all
      have read : digit? c = some (c.toNat - 48) := by
        refine if_pos ?_
        simpa [Char.isDigit, Char.le_def] using digit
      simp [digits, read, ih later]

theorem natOfDigits_decimal (size : Nat) : Numeral.natOfDigits (decimal size) = size := by
  have written := Nat.ofDigitChars_ten_toDigits (n := size)
  rw [Nat.ofDigitChars_eq_foldl] at written
  rw [Numeral.natOfDigits, decimal, List.foldl_map]
  simpa [Nat.mul_comm] using written

/-- No number of two digits or more begins with a zero. -/
theorem decimal_zero {later : List Nat} (leads : decimal size = 0 :: later) :
    later = [] := by
  induction size using Nat.strongRecOn generalizing later with
  | ind size ih =>
    by_cases small : size < 10
    · rw [decimal, Nat.toDigits_of_lt_base small] at leads
      exact (List.cons.inj leads).2.symm
    · rw [decimal, Nat.toDigits_of_base_le (by decide) (by omega),
        List.map_append] at leads
      cases first : decimal (size / 10) with
      | nil => simp [decimal] at first
      | cons digit rest =>
          rw [show (Nat.toDigits 10 (size / 10)).map (fun c => c.toNat - 48) =
            digit :: rest from first] at leads
          obtain rfl := (List.cons.inj leads).1
          obtain rfl := ih (size / 10) (by omega) first
          have zero := natOfDigits_decimal (size / 10)
          rw [first] at zero
          exact absurd zero (by simp [Numeral.natOfDigits]; omega)

theorem unsigned_toDigits (negative : Bool) (size : Nat) (closes : Closes rest) :
    unsigned negative (Nat.toDigits 10 size ++ rest) =
      some (⟨negative, decimal size, [], none, false⟩, rest) := by
  have read : digits (Nat.toDigits 10 size ++ rest) = (decimal size, rest) := by
    rw [digits_append fun c => Nat.isDigit_of_mem_toDigits (by decide) (by decide),
      closes.digits, List.append_nil, decimal]
  have some_ : decimal size ≠ [] := by simp [decimal]
  rw [unsigned, read]
  split
  next none_ => exact absurd (congrArg Prod.fst none_) some_
  next leads =>
      exact absurd (decimal_zero (congrArg Prod.fst leads)) (List.cons_ne_nil _ _)
  next whole after _ _ same =>
    obtain ⟨rfl, rfl⟩ := Prod.mk.inj same
    rw [closes.ends.1]
    simp only [Option.bind_eq_bind, Option.bind_some, closes.ends.2]
    rfl

theorem toDigits_cons (size : Nat) :
    ∃ c rest, Nat.toDigits 10 size = c :: rest ∧ c.isDigit = true := by
  cases written : Nat.toDigits 10 size with
  | nil => simp at written
  | cons c rest =>
      exact ⟨c, rest, rfl,
        Nat.isDigit_of_mem_toDigits (by decide) (by decide) (written ▸ List.mem_cons_self)⟩

theorem whole_chars (value : Int) :
    (Json.Number.whole value).chars =
      (if value < 0 then ['-'] else []) ++ Nat.toDigits 10 value.natAbs := by
  cases value with
  | ofNat size =>
      change (Int.repr (.ofNat size)).toList = _
      simp [Int.repr, Nat.repr, Int.not_lt.mpr (Int.natCast_nonneg size)]
  | negSucc size =>
      change (Int.repr (.negSucc size)).toList = _
      simp [Int.repr, Nat.repr, Int.negSucc_lt_zero]

/-- A number begins with a digit, or with a sign that no digit is. -/
theorem whole_chars_cons (value : Int) :
    ∃ c later, (Json.Number.whole value).chars = c :: later ∧
      (c.isDigit = true ∨ c = '-') := by
  obtain ⟨c, later, leads, digit⟩ := toDigits_cons value.natAbs
  rw [whole_chars, leads]
  split
  · exact ⟨_, _, rfl, .inr rfl⟩
  · exact ⟨_, _, rfl, .inl digit⟩

/-- A whole number, negative or not, is read as the digits of its size. -/
theorem numeral_whole (value : Int) (closes : Closes rest) :
    numeral ((Json.Number.whole value).chars ++ rest) =
      some (⟨decide (value < 0), decimal value.natAbs, [], none, false⟩, rest) := by
  rw [whole_chars]
  split
  next negative =>
    rw [List.append_assoc, List.singleton_append, numeral,
      unsigned_toDigits true _ closes, decide_eq_true negative]
  next positive =>
    obtain ⟨c, later, leads, digit⟩ := toDigits_cons value.natAbs
    have unsigned := unsigned_toDigits false value.natAbs closes
    rw [List.nil_append, numeral.eq_def, decide_eq_false positive, ← unsigned, leads,
      List.cons_append]
    split
    next signed =>
      obtain rfl := (List.cons.inj signed).1
      simp at digit
    next => rfl

end Numbers

end RawJson

section Values

mutual

/-- The text of a number that is not whole has no place here. -/
def Json.isWhole : Json → Bool
  | .null | .bool _ | .string _ | .number (.whole _) => true
  | .number (.float _) => false
  | .array items => areItemsWhole items
  | .object members => areMembersWhole members
termination_by structural value => value

def Json.areItemsWhole : List Json → Bool
  | [] => true
  | item :: rest => item.isWhole && areItemsWhole rest
termination_by structural items => items

def Json.areMembersWhole : List (String × Json) → Bool
  | [] => true
  | (_, value) :: rest => value.isWhole && areMembersWhole rest
termination_by structural members => members

end

mutual

/-- What the text of a value says, if its numbers are whole. -/
def Json.raw : Json → RawJson
  | .null => .null
  | .bool value => .bool value
  | .string value => .string value
  | .number (.whole value) =>
      .number ⟨decide (value < 0), RawJson.decimal value.natAbs, [], none, false⟩
  | .number (.float _) => .unreadable
  | .array items => .array (rawItems items)
  | .object members => .object (rawMembers members)
termination_by structural value => value

def Json.rawItems : List Json → List RawJson
  | [] => []
  | item :: rest => item.raw :: rawItems rest
termination_by structural items => items

def Json.rawMembers : List (String × Json) → List (String × RawJson)
  | [] => []
  | (name, value) :: rest => (name, value.raw) :: rawMembers rest
termination_by structural members => members

end

namespace RawJson

variable {rest : List Char} {fuel : Nat} {c : Char}

theorem skipSpace_cons (opens : isSpace c = false) :
    skipSpace (c :: rest) = c :: rest := by
  simp [skipSpace, opens]

theorem value_string (text : String) :
    value (fuel + 1) (Json.stringChars text ++ rest) = some (.string text, rest) := by
  have body : Json.stringChars text ++ rest =
      Json.quotation :: (text.toList.flatMap Json.escape ++ Json.quotation :: rest) := by
    simp [Json.stringChars]
  have read : value (fuel + 1)
      (Json.quotation :: (text.toList.flatMap Json.escape ++ Json.quotation :: rest)) =
      (stringBody (text.toList.flatMap Json.escape ++ Json.quotation :: rest)).map
        fun found => ((found.1.map .string).getD .unreadable, found.2) := rfl
  rw [body, read, stringBody_escaped]
  rfl

/-- What a number begins with opens nothing else. -/
theorem opening_number (number : Int) :
    ∃ c later, (Json.Number.whole number).chars = c :: later ∧ isSpace c = false ∧
      c ∉ ['n', 't', 'f', '[', ']', '{', Json.quotation] := by
  obtain ⟨c, later, leads, starts⟩ := whole_chars_cons number
  have apart (other : Char)
      (unlike : other.isDigit = false ∧ other ≠ '-') : c ≠ other := by
    rintro rfl
    rcases starts with digit | rfl
    · exact absurd digit (by simp [unlike.1])
    · exact unlike.2 rfl
  refine ⟨c, later, leads, ?_, fun among => ?_⟩
  · simp [isSpace, apart ' ' (by decide), apart '\t' (by decide), apart '\n' (by decide),
      apart '\r' (by decide)]
  · have special : ∀ other ∈ ['n', 't', 'f', '[', ']', '{', Json.quotation],
        other.isDigit = false ∧ other ≠ '-' := by
      simp [Json.quotation, Char.isDigit]
    exact apart c (special c among) rfl

theorem value_number (number : Int) (closes : Closes rest) :
    value (fuel + 1) ((Json.Number.whole number).chars ++ rest) =
      some ((Json.number (.whole number)).raw, rest) := by
  obtain ⟨c, later, leads, opens, apart⟩ := opening_number number
  simp only [List.mem_cons, List.not_mem_nil, or_false, not_or] at apart
  obtain ⟨_, _, _, _, _, _, unquoted⟩ := apart
  have read : value (fuel + 1) (c :: (later ++ rest)) =
      (numeral (c :: (later ++ rest))).map fun found => (.number found.1, found.2) := by
    rw [value.eq_def]
    simp only [skipSpace_cons opens]
    split <;> simp_all
  rw [leads, List.cons_append, read, ← List.cons_append, ← leads,
    numeral_whole number closes]
  rfl

/-- A value begins with a character that is no space and does not close an array. -/
theorem chars_cons {value : Json} (whole : value.isWhole = true) :
    ∃ c later, value.chars = c :: later ∧ isSpace c = false ∧ c ≠ ']' := by
  cases value with
  | null | string | array | object => exact ⟨_, _, rfl, by decide, by decide⟩
  | bool value => cases value <;> exact ⟨_, _, rfl, by decide, by decide⟩
  | number value =>
      cases value with
      | float value => simp [Json.isWhole] at whole
      | whole size =>
          obtain ⟨c, later, leads, opens, apart⟩ := opening_number size
          exact ⟨c, later, leads, opens, fun closing => apart (by simp [closing])⟩

theorem value_array {inside : List Char} (opens : isSpace c = false) (opened : c ≠ ']') :
    value (fuel + 1) ('[' :: c :: inside) =
      (items fuel (c :: inside)).map fun found => (.array found.1, found.2) := by
  have spaced : skipSpace ('[' :: c :: inside) = '[' :: c :: inside := rfl
  rw [value.eq_def]
  simp only [spaced, skipSpace_cons opens]
  split
  next closed => exact absurd (List.cons.inj closed).1 opened
  next => rfl

theorem value_object {inside : List Char} :
    value (fuel + 1) ('{' :: Json.quotation :: inside) =
      (members fuel (Json.quotation :: inside)).map fun found =>
        (ofMembers found.1, found.2) := rfl

theorem ofMembers_some (members : List (String × RawJson)) :
    ofMembers (members.map fun member => (some member.1, member.2)) = .object members := by
  have named : (members.map fun member => (some member.1, member.2)).mapM
      (fun entry : Option String × RawJson => entry.1.map fun name => (name, entry.2)) =
      some members := by
    induction members with
    | nil => rfl
    | cons member rest ih => simp_all
  rw [ofMembers, named]

theorem Closes.cons (closing : c = ',' ∨ c = ']' ∨ c = '}') : Closes (c :: rest) := by
  rintro _ ⟨⟩
  exact closing

theorem itemChars_cons {item : Json} {later : List Json}
    (whole : Json.areItemsWhole (item :: later) = true) :
    ∃ c inside, Json.separated ',' (Json.itemChars (item :: later)) = c :: inside ∧
      isSpace c = false ∧ c ≠ ']' := by
  rw [Json.areItemsWhole, Bool.and_eq_true] at whole
  obtain ⟨c, inside, leads, opens⟩ := chars_cons whole.1
  cases later with
  | nil => exact ⟨c, inside, by simp only [Json.itemChars, Json.separated, leads], opens⟩
  | cons =>
      exact ⟨c, _,
        by simp only [Json.itemChars, Json.separated, leads, List.cons_append]; rfl, opens⟩

theorem memberChars_cons (member : String × Json) (later : List (String × Json)) :
    ∃ inside, Json.separated ',' (Json.memberChars (member :: later)) =
      Json.quotation :: inside := by
  cases later <;> exact ⟨_, rfl⟩

theorem members_string (name : String) (after : List Char) :
    members (fuel + 1) (Json.stringChars name ++ ':' :: after) = match value fuel after with
      | none => none
      | some (item, rest) =>
          match skipSpace rest with
          | ',' :: after =>
              (members fuel after).map fun found => ((some name, item) :: found.1, found.2)
          | '}' :: after => some ([(some name, item)], after)
          | _ => none := by
  have body : Json.stringChars name ++ ':' :: after =
      Json.quotation ::
        (name.toList.flatMap Json.escape ++ Json.quotation :: ':' :: after) := by
    simp [Json.stringChars]
  have opened : skipSpace
      (Json.quotation :: (name.toList.flatMap Json.escape ++ Json.quotation :: ':' :: after)) =
      Json.quotation :: (name.toList.flatMap Json.escape ++ Json.quotation :: ':' :: after) :=
        skipSpace_cons (by decide)
  rw [body, members, opened]
  simp only [if_true, stringBody_escaped]
  rfl

theorem chars_length_pos (value : Json) (whole : value.isWhole = true) :
    0 < value.chars.length := by
  obtain ⟨c, later, leads, _⟩ := chars_cons whole
  simp [leads]

mutual

/-- The text of a value is read as the value, and ends with it. -/
theorem value_chars :
    ∀ (written : Json) (fuel : Nat) (rest : List Char), written.isWhole = true →
      Closes rest → 2 * written.chars.length ≤ fuel →
      value fuel (written.chars ++ rest) = some (written.raw, rest)
  | written, 0, _, whole, _, enough => by
      have := chars_length_pos written whole
      omega
  | .null, fuel + 1, _, _, _, _ => rfl
  | .bool true, fuel + 1, _, _, _, _ => rfl
  | .bool false, fuel + 1, _, _, _, _ => rfl
  | .string text, fuel + 1, rest, _, _, _ => value_string text
  | .number (.whole size), fuel + 1, rest, _, closes, _ => value_number size closes
  | .number (.float _), _, _, whole, _, _ => Bool.noConfusion whole
  | .array [], fuel + 1, _, _, _, _ => rfl
  | .array (item :: later), fuel + 1, rest, whole, _, enough => by
      have bound : 2 * (Json.separated ',' (Json.itemChars (item :: later))).length + 1 ≤
          fuel := by
        simp only [Json.chars, List.length_cons, List.length_append,
          List.length_nil] at enough
        omega
      have read :=
        items_chars (item :: later) fuel rest (List.cons_ne_nil _ _) whole bound
      obtain ⟨c, inside, leads, opens, open_⟩ := itemChars_cons whole
      rw [leads, List.cons_append] at read
      rw [Json.chars, leads, List.cons_append, List.cons_append, List.cons_append,
        List.append_assoc, List.singleton_append,
        value_array opens open_, read]
      rfl
  | .object [], fuel + 1, _, _, _, _ => rfl
  | .object (member :: later), fuel + 1, rest, whole, _, enough => by
      have bound : 2 * (Json.separated ',' (Json.memberChars (member :: later))).length +
          1 ≤ fuel := by
        simp only [Json.chars, List.length_cons, List.length_append,
          List.length_nil] at enough
        omega
      have read :=
        members_chars (member :: later) fuel rest (List.cons_ne_nil _ _) whole bound
      obtain ⟨inside, leads⟩ := memberChars_cons member later
      rw [leads, List.cons_append] at read
      rw [Json.chars, leads, List.cons_append, List.cons_append, List.cons_append,
        List.append_assoc, List.singleton_append,
        value_object, read, Option.map_some, ofMembers_some]
      rfl
termination_by structural written => written

theorem items_chars :
    ∀ (all : List Json) (fuel : Nat)
      (rest : List Char), all ≠ [] → Json.areItemsWhole all = true →
      2 * (Json.separated ',' (Json.itemChars all)).length + 1 ≤ fuel →
      items fuel (Json.separated ',' (Json.itemChars all) ++ ']' :: rest) =
        some (Json.rawItems all, rest)
  | [], _, _, some_, _, _ => absurd rfl some_
  | [item], fuel + 1, rest, _, whole, enough => by
      simp only [Json.itemChars, Json.separated, Json.areItemsWhole,
        Bool.and_true] at enough whole ⊢
      rw [items, value_chars item fuel _ whole (.cons (.inr (.inl rfl))) (by omega)]
      rfl
  | item :: second :: later, fuel + 1, rest, _, whole, enough => by
      rw [Json.areItemsWhole, Bool.and_eq_true] at whole
      have later_ :=
        items_chars (second :: later) fuel rest (List.cons_ne_nil _ _) whole.2
      simp only [Json.itemChars, Json.separated, List.length_append,
        List.length_cons] at enough later_ ⊢
      rw [List.append_assoc, List.cons_append, items,
        value_chars item fuel _ whole.1 (.cons (.inl rfl)) (by omega)]
      simp only [skipSpace_cons (show isSpace ',' = false by decide)]
      rw [later_ (by omega)]
      rfl
termination_by structural all => all

theorem members_chars :
    ∀ (all : List (String × Json)) (fuel : Nat)
      (rest : List Char), all ≠ [] → Json.areMembersWhole all = true →
      2 * (Json.separated ',' (Json.memberChars all)).length + 1 ≤ fuel →
      members fuel (Json.separated ',' (Json.memberChars all) ++ '}' :: rest) =
      some ((Json.rawMembers all).map fun member => (some member.1, member.2), rest)
  | [], _, _, some_, _, _ => absurd rfl some_
  | [(name, item)], fuel + 1, rest, _, whole, enough => by
      simp only [Json.memberChars, Json.separated, Json.areMembersWhole,
        Bool.and_true] at enough whole ⊢
      rw [List.length_append, List.length_cons] at enough
      rw [List.append_assoc, List.cons_append, members_string,
        value_chars item fuel _ whole (.cons (.inr (.inr rfl))) (by omega)]
      rfl
  | (name, item) :: second :: later, fuel + 1, rest, _, whole, enough => by
      rw [Json.areMembersWhole, Bool.and_eq_true] at whole
      have later_ :=
        members_chars (second :: later) fuel rest (List.cons_ne_nil _ _) whole.2
      simp only [Json.memberChars, Json.separated, List.length_append,
        List.length_cons] at enough later_ ⊢
      rw [List.append_assoc, List.append_assoc, List.cons_append, List.cons_append,
        members_string, value_chars item fuel _ whole.1 (.cons (.inl rfl)) (by omega)]
      simp only [skipSpace_cons (show isSpace ',' = false by decide)]
      rw [later_ (by omega)]
      rfl
termination_by structural all => all

end

/-- Reading the text of a value gives the value. -/
theorem ofText?_text {written : Json} (whole : written.isWhole = true) :
    ofText? written.text = some written.raw := by
  have closes : Closes [] := nofun
  have read :=
    value_chars written (2 * written.chars.length + 2) [] whole closes (Nat.le_add_right _ _)
  rw [List.append_nil] at read
  rw [ofText?, ofChars?, Json.text, String.toList_ofList, read]
  rfl

end RawJson

end Values

end TicketFlow
