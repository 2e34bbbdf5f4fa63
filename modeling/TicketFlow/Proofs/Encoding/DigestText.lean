import TicketFlow.Proofs.Encoding.Reading

namespace TicketFlow

/-! Which texts are read as digests.

A text is read exactly if it is the mark and sixty-four hexadecimal digits, in
either letter case, and it is read as the digest that is written with these
digits in lower case.  Every other text has one fault: no mark, else an odd
number of bytes, else a wrong number of them, else the first byte that is no
digit.
-/

section Ascii

variable {c : Char} {chars marks : List Char} {rest : List UInt8}

theorem Text.utf8EncodeChar_ascii (ascii : c.toNat < 128) :
    String.utf8EncodeChar c = [UInt8.ofNat c.toNat] := by
  have small : c.val.toNat ≤ 127 := Nat.le_of_lt_succ ascii
  exact if_pos small

/-- The first byte of any other character is none of an ASCII character. -/
theorem Text.utf8EncodeChar_large (large : 128 ≤ c.toNat) :
    ∃ byte more, String.utf8EncodeChar c = byte :: more ∧ 128 ≤ byte.toNat := by
  have beyond : ¬c.val.toNat ≤ 127 := Nat.not_le.mpr large
  simp only [String.utf8EncodeChar, beyond, if_false]
  split
  · exact ⟨_, _, rfl, by rw [UInt8.toNat_ofNat']; omega⟩
  split
  · exact ⟨_, _, rfl, by rw [UInt8.toNat_ofNat']; omega⟩
  · exact ⟨_, _, rfl, by rw [UInt8.toNat_ofNat']; omega⟩

theorem Text.bytes_ascii (ascii : ∀ c ∈ chars, c.toNat < 128) :
    Text.bytes (String.ofList chars) = chars.map fun c => UInt8.ofNat c.toNat := by
  rw [bytes, String.toList_ofList]
  induction chars with
  | nil => rfl
  | cons c later ih =>
      obtain ⟨first, others⟩ := List.forall_mem_cons.mp ascii
      rw [List.flatMap_cons, utf8EncodeChar_ascii first, ih others]
      rfl

/-- A text whose bytes begin with those of ASCII characters begins with the characters. -/
theorem Text.eq_append_of_bytes (ascii : ∀ c ∈ marks, c.toNat < 128)
    (same : chars.flatMap String.utf8EncodeChar =
      marks.flatMap String.utf8EncodeChar ++ rest) :
    ∃ later, chars = marks ++ later ∧ later.flatMap String.utf8EncodeChar = rest := by
  induction marks generalizing chars with
  | nil => exact ⟨chars, rfl, same⟩
  | cons mark marks ih =>
      obtain ⟨small, others⟩ := List.forall_mem_cons.mp ascii
      rw [List.flatMap_cons, utf8EncodeChar_ascii small] at same
      cases chars with
      | nil => simp at same
      | cons c chars =>
          rw [List.flatMap_cons] at same
          have code : (UInt8.ofNat mark.toNat).toNat = mark.toNat := by
            rw [UInt8.toNat_ofNat']; omega
          rcases Nat.lt_or_ge c.toNat 128 with first | large
          · rw [utf8EncodeChar_ascii first] at same
            obtain ⟨byte, further⟩ := List.cons.inj same
            have equal : c = mark := by
              have codes := congrArg UInt8.toNat byte
              rw [code, UInt8.toNat_ofNat', Nat.mod_eq_of_lt (by omega)] at codes
              exact Char.toNat_inj.mp codes
            obtain ⟨later, rfl, encoded⟩ := ih others further
            exact ⟨later, by rw [equal, List.cons_append], encoded⟩
          · obtain ⟨byte, more, encoded, above⟩ := utf8EncodeChar_large large
            rw [encoded] at same
            have codes := congrArg UInt8.toNat (List.cons.inj same).1
            omega

end Ascii

namespace Hex

/-- The byte is a hexadecimal digit of either letter case. -/
def IsDigit (byte : UInt8) : Prop :=
  (Char.ofNat byte.toNat).isHexDigit = true

/-- The byte as a character, a letter in lower case. -/
def lower (byte : UInt8) : Char :=
  (Char.ofNat byte.toNat).toLower

instance : DecidablePred IsDigit :=
  fun _ => inferInstanceAs (Decidable (_ = true))

/-- The byte stands at the position and is no digit, and all before it are. -/
structure FirstBad (digits : List UInt8) (byte : UInt8) (position : Nat) : Prop where
  found : digits[position]? = some byte
  bad : ¬IsDigit byte
  before : ∀ earlier < position, ∀ other, digits[earlier]? = some other → IsDigit other

variable {byte : UInt8} {digits read : List UInt8} {position : Nat}

section Digits

theorem value?_eq_none_iff : value? byte = none ↔ ¬IsDigit byte := by
  have each : ∀ code : Fin 256, value? (UInt8.ofNat code) = none ↔
      ¬IsDigit (UInt8.ofNat code) := by decide +kernel
  have here := each ⟨byte.toNat, byte.toNat_lt⟩
  rwa [UInt8.ofNat_toNat] at here

theorem value?_eq_some {value : UInt8} (found : value? byte = some value) :
    value < 16 ∧ digit value = lower byte := by
  have each : ∀ code : Fin 256, ∀ value ∈ value? (UInt8.ofNat code), value < 16 ∧
      digit value = lower (UInt8.ofNat code) := by
    decide +kernel
  have here := each ⟨byte.toNat, byte.toNat_lt⟩
  rw [UInt8.ofNat_toNat] at here
  exact here value found

theorem ofByte_join {first second : UInt8} (high : first < 16) (low : second < 16) :
    ofByte (first <<< 4 ||| second) = [digit first, digit second] := by
  have each : ∀ high low : Fin 16, ofByte (UInt8.ofNat high <<< 4 ||| UInt8.ofNat low) =
      [digit (UInt8.ofNat high), digit (UInt8.ofNat low)] := by
    decide +kernel
  have here :=
    each ⟨first.toNat, UInt8.lt_iff_toNat_lt.mp high⟩
      ⟨second.toNat, UInt8.lt_iff_toNat_lt.mp low⟩
  rwa [UInt8.ofNat_toNat, UInt8.ofNat_toNat] at here

theorem isDigit_of_value? {value : UInt8}
    (found : value? byte = some value) : IsDigit byte :=
  Decidable.byContradiction fun bad => by simp [value?_eq_none_iff.mpr bad] at found

theorem FirstBad.cons {first : UInt8} (digit : IsDigit first)
    (bad : FirstBad digits byte position) :
    FirstBad (first :: digits) byte (position + 1) where
  found := bad.found
  bad := bad.bad
  before := by
    rintro (_ | earlier) within other found
    · exact Option.some.inj found ▸ digit
    · exact bad.before earlier (Nat.lt_of_succ_lt_succ within) other found

theorem FirstBad.head (bad : ¬IsDigit byte) : FirstBad (byte :: digits) byte 0 :=
  ⟨rfl, bad, fun _ within => absurd within (Nat.not_lt_zero _)⟩

/-- Pairs of digits are read as what is written with them, up to the letter case; else
there is a first byte that is no digit, and it is told. -/
theorem decodePairs_cases (start : Nat) (even : digits.length % 2 = 0) :
    (∃ read, decodePairs digits start = .ok read ∧
      (∀ byte ∈ digits, IsDigit byte) ∧ encode read = digits.map lower) ∨ ∃ byte position,
      decodePairs digits start = .error (.badDigit byte (start + position)) ∧
        FirstBad digits byte position := by
  fun_induction decodePairs digits start with
  | case1 high low rest start first second secondHalf firstHalf ih =>
      have digits :=
        (⟨isDigit_of_value? firstHalf,
          isDigit_of_value? secondHalf⟩ : IsDigit high ∧ IsDigit low)
      have evenRest : rest.length % 2 = 0 := by
        simp only [List.length_cons] at even; omega
      rcases ih evenRest with ⟨read, decoded, all, written⟩ | ⟨byte, position, failed, bad⟩
      · obtain ⟨small, one⟩ := value?_eq_some firstHalf
        obtain ⟨smaller, two⟩ := value?_eq_some secondHalf
        refine .inl ⟨_, by rw [decoded]; rfl, by simpa [digits] using all, ?_⟩
        rw [encode, List.flatMap_cons, ofByte_join small smaller, one, two,
          ← encode, written]
        rfl
      · refine .inr ⟨byte, position + 2, ?_, (bad.cons digits.2).cons digits.1⟩
        rw [failed, show start + 2 + position = start + (position + 2) by omega]
        rfl
  | case2 high low rest start firstHalf =>
      exact .inr ⟨high, 0, rfl, .head (value?_eq_none_iff.mp firstHalf)⟩
  | case3 high low rest start first secondHalf firstHalf =>
      exact .inr ⟨low, 1, rfl,
        (FirstBad.head (value?_eq_none_iff.mp secondHalf)).cons (isDigit_of_value? firstHalf)⟩
  | case4 last start => simp at even
  | case5 start => exact .inl ⟨[], rfl, by simp, rfl⟩

theorem FirstBad.unique {other : UInt8} {place : Nat}
    (bad : FirstBad digits byte position) (again : FirstBad digits other place) :
    byte = other ∧ position = place := by
  rcases Nat.lt_trichotomy position place with before | rfl | behind
  · exact absurd (again.before _ before _ bad.found) bad.bad
  · exact ⟨Option.some.inj (bad.found.symm.trans again.found), rfl⟩
  · exact absurd (bad.before _ behind _ again.found) again.bad

theorem FirstBad.not_all (bad : FirstBad digits byte position) :
    ¬∀ byte ∈ digits, IsDigit byte :=
  fun all => bad.bad (all byte (List.mem_of_getElem? bad.found))

end Digits

section Characters

variable {rest : String} {c : Char}

/-- A digit is one byte, and the same digit as this byte. -/
theorem byte_of_isHexDigit (digit : c.isHexDigit = true) :
    c.toNat < 128 ∧ IsDigit (UInt8.ofNat c.toNat) ∧
      lower (UInt8.ofNat c.toNat) = c.toLower := by
  have small : c.toNat < 128 := by
    simp only [Char.isHexDigit, Char.isDigit, Bool.or_eq_true, Bool.and_eq_true,
      decide_eq_true_eq, ge_iff_le, UInt32.le_iff_toNat_le] at digit
    have value : c.val.toNat = c.toNat := rfl
    have nine : '9'.val.toNat = 57 := rfl
    have upper : 'F'.val.toNat = 70 := rfl
    have lower : 'f'.val.toNat = 102 := rfl
    omega
  have same : Char.ofNat (UInt8.ofNat c.toNat).toNat = c := by
    rw [UInt8.toNat_ofNat', Nat.mod_eq_of_lt (by omega), Char.ofNat_toNat]
  exact ⟨small, by rw [IsDigit, same, digit], by rw [lower, same]⟩

theorem char_of_isDigit (digit : IsDigit byte) :
    (Char.ofNat byte.toNat).toNat < 128 ∧
      UInt8.ofNat (Char.ofNat byte.toNat).toNat = byte := by
  have each : ∀ code : Fin 256, IsDigit (UInt8.ofNat code) →
      (Char.ofNat (UInt8.ofNat code).toNat).toNat < 128 ∧
        UInt8.ofNat (Char.ofNat (UInt8.ofNat code).toNat).toNat = UInt8.ofNat code := by
    decide +kernel
  have here := each ⟨byte.toNat, byte.toNat_lt⟩
  rw [UInt8.ofNat_toNat] at here
  exact here digit

theorem bytes_of_digits (all : ∀ c ∈ rest.toList, c.isHexDigit = true) :
    Text.bytes rest = rest.toList.map fun c => UInt8.ofNat c.toNat := by
  have written := Text.bytes_ascii fun c among => (byte_of_isHexDigit (all c among)).1
  rwa [String.ofList_toList] at written

/-- The bytes of a text are digits exactly if its characters are. -/
theorem bytes_isDigit_iff :
    (∀ byte ∈ Text.bytes rest, IsDigit byte) ↔ ∀ c ∈ rest.toList, c.isHexDigit = true := by
  constructor
  · intro all
    -- A text of these very characters has the same bytes, and so it is the same text.
    have ascii : ∀ c ∈ (Text.bytes rest).map fun byte => Char.ofNat byte.toNat,
        c.toNat < 128 :=
      List.forall_mem_map.mpr fun byte among => (char_of_isDigit (all byte among)).1
    have same : Text.bytes
        (String.ofList ((Text.bytes rest).map fun byte => Char.ofNat byte.toNat)) =
        Text.bytes rest := by
      rw [Text.bytes_ascii ascii, List.map_map]
      exact (List.map_congr_left fun byte among => (char_of_isDigit (all byte among)).2).trans
        (List.map_id _)
    rw [← Text.bytes_injective same, String.toList_ofList]
    exact List.forall_mem_map.mpr all
  · intro all
    rw [bytes_of_digits all]
    exact List.forall_mem_map.mpr fun c among => (byte_of_isHexDigit (all c among)).2.1

theorem lower_of_digits (all : ∀ c ∈ rest.toList, c.isHexDigit = true) :
    (Text.bytes rest).map lower = rest.toList.map Char.toLower := by
  rw [bytes_of_digits all, List.map_map]
  exact List.map_congr_left fun c among => (byte_of_isHexDigit (all c among)).2.2

end Characters

end Hex

namespace Digest

open Hex (IsDigit FirstBad Fault)

/-- What a text is read as. -/
inductive Reads (text : String) : Except ParseError Digest → Prop where
  | digest {rest : String} {digest : Digest} :
      text = mark ++ rest → rest.toList.length = 64 →
      (∀ c ∈ rest.toList, c.isHexDigit = true) →
      digest.text = mark ++ String.ofList (rest.toList.map Char.toLower) →
      Reads text (.ok digest)
  | unmarked : (∀ rest, text ≠ mark ++ rest) → Reads text (.error .missingMark)
  | odd {rest : String} :
      text = mark ++ rest →
      (Text.bytes rest).length % 2 = 1 → Reads text (.error (.badDigits .oddLength))
  | length {rest : String} :
      text = mark ++ rest → (Text.bytes rest).length % 2 = 0 →
      (Text.bytes rest).length ≠ 64 → Reads text (.error (.badDigits .wrongLength))
  | byte {rest : String} {byte : UInt8} {position : Nat} :
      text = mark ++ rest →
      (Text.bytes rest).length = 64 → FirstBad (Text.bytes rest) byte position →
      Reads text (.error (.badDigits (.badDigit byte position)))

variable {text rest : String} {fault : Fault} {read : List UInt8}

theorem afterMark_eq_some_iff {marks bytes rest : List UInt8} :
    afterMark marks bytes = some rest ↔ bytes = marks ++ rest := by
  constructor
  · fun_induction afterMark marks bytes with
    | case1 rest => exact fun same => Option.some.inj same
    | case2 => simp
    | case3 expected marks rest ih => exact fun same => by rw [ih same, List.cons_append]
    | case4 => simp
  · rintro rfl
    exact afterMark_append marks rest

theorem parse_unmarked (unmarked : ∀ rest, text ≠ mark ++ rest) :
    parse text = .error .missingMark := by
  have none_ : afterMark (Text.bytes mark) (Text.bytes text) = none := by
    refine Option.eq_none_iff_forall_ne_some.mpr fun digits found => ?_
    have ascii : ∀ c ∈ mark.toList, c.toNat < 128 := by simp [mark]
    obtain ⟨later, chars, _⟩ :=
      Text.eq_append_of_bytes ascii (afterMark_eq_some_iff.mp found)
    refine unmarked (String.ofList later) (String.toList_inj.mp ?_)
    rw [chars, String.toList_append, String.toList_ofList]
  simp only [parse, none_]

theorem afterMark_text :
    afterMark (Text.bytes mark) (Text.bytes (mark ++ rest)) = some (Text.bytes rest) := by
  rw [Text.bytes_append, afterMark_append]

theorem parse_failed (failed : Hex.decodeExactly 32 (Text.bytes rest) = .error fault) :
    parse (mark ++ rest) = .error (.badDigits fault) := by
  unfold parse
  rw [afterMark_text]
  simp only
  split
  next other again => rw [Except.error.inj (failed.symm.trans again)]
  next other again => simp [failed] at again

theorem parse_decoded (decoded : Hex.decodeExactly 32 (Text.bytes rest) = .ok read) :
    ∃ digest : Digest, parse (mark ++ rest) = .ok digest ∧ digest.bytes = read := by
  unfold parse
  rw [afterMark_text]
  simp only
  split
  next other again => simp [decoded] at again
  next other again => exact ⟨_, rfl, Except.ok.inj (again.symm.trans decoded)⟩

/-- Sixty-four digits behind the mark are read, and written again in lower case. -/
theorem parse_digits (length : (Text.bytes rest).length = 64)
    (all : ∀ byte ∈ Text.bytes rest, IsDigit byte) :
    ∃ digest, parse (mark ++ rest) = .ok digest ∧
      digest.text = mark ++ String.ofList (rest.toList.map Char.toLower) := by
  have even : (Text.bytes rest).length % 2 = 0 := by rw [length]
  rcases Hex.decodePairs_cases 0 even with ⟨read, decoded, _, written⟩ | ⟨_, _, _, bad⟩
  · obtain ⟨digest, parsed, rfl⟩ := parse_decoded
      (by rwa [Hex.decodeExactly, length, if_neg (by decide), if_neg (by decide)])
    refine ⟨digest, parsed, ?_⟩
    rw [text, Hex.text, written, Hex.lower_of_digits (Hex.bytes_isDigit_iff.mp all)]
  · exact absurd all bad.not_all

theorem parse_bad {byte : UInt8} {position : Nat} (length : (Text.bytes rest).length = 64)
    (bad : FirstBad (Text.bytes rest) byte position) :
    parse (mark ++ rest) = .error (.badDigits (.badDigit byte position)) := by
  have even : (Text.bytes rest).length % 2 = 0 := by rw [length]
  refine parse_failed ?_
  rw [Hex.decodeExactly, length, if_neg (by decide), if_neg (by decide)]
  rcases Hex.decodePairs_cases 0 even with ⟨_, _, all, _⟩ | ⟨other, place, failed, again⟩
  · exact absurd all bad.not_all
  · obtain ⟨rfl, rfl⟩ := bad.unique again
    rw [failed, Nat.zero_add]

theorem parse_odd (odd : (Text.bytes rest).length % 2 = 1) :
    parse (mark ++ rest) = .error (.badDigits .oddLength) :=
  parse_failed (by rw [Hex.decodeExactly, odd, if_pos (by decide)])

theorem parse_length (even : (Text.bytes rest).length % 2 = 0)
    (wrong : (Text.bytes rest).length ≠ 64) :
    parse (mark ++ rest) = .error (.badDigits .wrongLength) :=
  parse_failed (by rw [Hex.decodeExactly, even, if_neg (by decide), if_pos wrong])

theorem length_of_digits (all : ∀ c ∈ rest.toList, c.isHexDigit = true) :
    (Text.bytes rest).length = rest.toList.length := by
  rw [Hex.bytes_of_digits all, List.length_map]

theorem Reads.parse {result : Except ParseError Digest} (reads : Reads text result) :
    Digest.parse text = result := by
  cases reads with
  | digest marked length all written =>
      -- The digest is known by its text only, and no other digest has this text.
      obtain ⟨digest, parsed, again⟩ :=
        parse_digits ((length_of_digits all).trans length) (Hex.bytes_isDigit_iff.mpr all)
      obtain rfl := text_injective (again.trans written.symm)
      rw [marked, parsed]
  | unmarked absent => exact parse_unmarked absent
  | odd marked odd => rw [marked, parse_odd odd]
  | length marked even wrong => rw [marked, parse_length even wrong]
  | byte marked length bad => rw [marked, parse_bad length bad]

/-- There is always one thing that a text is read as. -/
theorem exists_reads (text : String) : ∃ result, Reads text result := by
  by_cases marked : ∃ rest, text = mark ++ rest
  · obtain ⟨rest, marked⟩ := marked
    rcases Nat.mod_two_eq_zero_or_one (Text.bytes rest).length with even | odd
    · by_cases length : (Text.bytes rest).length = 64
      · by_cases all : ∀ byte ∈ Text.bytes rest, IsDigit byte
        · obtain ⟨digest, _, written⟩ := parse_digits length all
          have chars := Hex.bytes_isDigit_iff.mp all
          exact ⟨_, .digest marked ((length_of_digits chars).symm.trans length) chars written⟩
        · rcases Hex.decodePairs_cases 0 even with ⟨_, _, digits, _⟩ | ⟨_, _, _, bad⟩
          · exact absurd digits all
          · exact ⟨_, .byte marked length bad⟩
      · exact ⟨_, .length marked even length⟩
    · exact ⟨_, .odd marked odd⟩
  · exact ⟨_, .unmarked fun rest same => marked ⟨rest, same⟩⟩

theorem parse_eq_iff {result : Except ParseError Digest} :
    parse text = result ↔ Reads text result := by
  refine ⟨?_, Reads.parse⟩
  rintro rfl
  obtain ⟨result, reads⟩ := exists_reads text
  exact reads.parse ▸ reads

/-- A text is read as a digest exactly if it is the mark and sixty-four digits, and the
digest is then written as the text in lower case; otherwise the first thing that is wrong
with it is told.  What is written is read again. -/
theorem parse_exact :
    (∀ text, (∃ digest, parse text = .ok digest) ↔ ∃ rest, text = mark ++ rest ∧
      rest.toList.length = 64 ∧ ∀ c ∈ rest.toList, c.isHexDigit = true) ∧
    (∀ text result, parse text = result ↔ Reads text result) ∧
    ∀ digest : Digest, parse digest.text = .ok digest := by
  refine ⟨fun text => ⟨?_, ?_⟩, fun text result => parse_eq_iff, parse_text⟩
  · rintro ⟨digest, parsed⟩
    cases parse_eq_iff.mp parsed with
    | digest marked length all _ => exact ⟨_, marked, length, all⟩
  · rintro ⟨rest, rfl, length, all⟩
    obtain ⟨digest, parsed, _⟩ :=
      parse_digits ((length_of_digits all).trans length) (Hex.bytes_isDigit_iff.mpr all)
    exact ⟨digest, parsed⟩

end Digest

end TicketFlow
