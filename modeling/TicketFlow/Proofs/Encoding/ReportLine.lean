import TicketFlow.Proofs.Encoding.Values
import TicketFlow.Report

namespace TicketFlow

/-! Lines of an execution log, read back.

The text of an entry stands on one line, whatever is in its strings, and it ends
with a brace.  So blanks behind the line are cut off and nothing else is, and
what is left is read as the entry, unless its value nests deeper than a record
may hold.
-/

section Trimming

variable {chars blanks : List Char}

/-- Of a text that does not end with a blank, only the blanks behind it are cut off. -/
theorem Text.trimEndChars_append (ends : ∀ c ∈ chars.reverse.head?, isBlank c = false)
    (blank : ∀ c ∈ blanks, isBlank c = true) :
    trimEndChars (chars ++ blanks) = chars := by
  have behind (c : Char) (among : c ∈ blanks.reverse) : isBlank c = true :=
    blank c (List.mem_reverse.mp among)
  rw [trimEndChars, List.reverse_append, List.dropWhile_append_of_pos behind]
  cases turned : chars.reverse with
  | nil => exact (List.reverse_eq_nil_iff.mp turned).symm
  | cons c rest =>
      have last : isBlank c = false := ends c (by rw [turned]; rfl)
      rw [List.dropWhile_cons_of_neg (by simp [last]), ← turned, List.reverse_reverse]

end Trimming

namespace ReportEntry

open RawJson (depthLimit)
open RawJson.Numeral (maxSignificand)

variable {entry : ReportEntry}

theorem storable_toJson (stamped : entry.timestamp ≤ maxSignificand)
    (storable : entry.value.Storable) : entry.toJson.Storable := by
  have least : Int64.minValue.toInt ≤ 0 := by decide
  have time : (Json.nat entry.timestamp).Storable := .whole (by omega) (by omega)
  refine .object (by simp [OrderedMap.Distinct, OrderedMap.keys]) ?_
  simp only [List.forall_mem_cons]
  exact ⟨time, .string _, .string _, .string _, .string _, storable, List.forall_mem_nil _⟩

theorem reportEntry?_raw (stamped : entry.timestamp ≤ maxSignificand) (depth : Nat) :
    RawJson.reportEntry? (depth + 1) entry.toJson.raw =
      (entry.value.raw.toJson? depth).map fun value => { entry with value } := by
  have time := RawJson.nat?_raw stamped
  rw [RawJson.reportEntry?, toJson, RawJson.inside, RawJson.record?_raw]
  · simp [RawJson.Record.required, time, RawJson.digest?_raw, RawJson.runId?_raw]
    cases entry.value.raw.toJson? depth <;> rfl
  · rfl
  · decide

/-- The last character of a line is a brace, and blanks end there. -/
theorem trimEnd_line {blanks : String} (entry : ReportEntry)
    (blank : ∀ c ∈ blanks.toList, Text.isBlank c = true) :
    Text.trimEnd (entry.line ++ blanks) = entry.line := by
  have ends : ∀ c ∈ entry.line.toList.reverse.head?, Text.isBlank c = false := by
    simp [line, Json.text, toJson, Json.chars, Text.isBlank]
  rw [Text.trimEnd, String.toList_append, Text.trimEndChars_append ends blank,
    String.ofList_toList]

/-- What a line is read as, with any blanks behind it, is up to the value of its entry. -/
theorem ofLine?_append {blanks : String}
    (stamped : entry.timestamp ≤ maxSignificand) (storable : entry.value.Storable)
    (blank : ∀ c ∈ blanks.toList, Text.isBlank c = true) :
    ofLine? (entry.line ++ blanks) =
      (entry.value.raw.toJson? (depthLimit - 1)).map fun value => { entry with value } := by
  rw [ofLine?, trimEnd_line entry blank, RawJson.readText?, line,
    RawJson.ofText?_text (storable_toJson stamped storable).isWhole, Option.bind_some]
  exact reportEntry?_raw stamped (depthLimit - 1)

/-- The line of an entry has no line break in it, nor any other control.  With blanks
behind it, it is read as an equal entry, if the value nests less deeply than is read, and
is not read otherwise: the record itself is one level. -/
theorem line_reads_back (entry : ReportEntry) (blanks : String)
    (stamped : entry.timestamp ≤ maxSignificand) (storable : entry.value.Storable)
    (blank : ∀ c ∈ blanks.toList, Text.isBlank c = true) :
    (∀ c ∈ entry.line.toList, 0x20 ≤ c.toNat) ∧
      (entry.value.nesting < depthLimit →
        ∃ value, ofLine? (entry.line ++ blanks) = some { entry with value } ∧
          entry.value.SameAs value ∧ (entry.value.InOrder → value = entry.value)) ∧
      (depthLimit ≤ entry.value.nesting → ofLine? (entry.line ++ blanks) = none) := by
  rw [ofLine?_append stamped storable blank]
  refine ⟨?_, fun nests => ?_, fun deep => ?_⟩
  · rw [line, Json.text, String.toList_ofList]
    exact (storable_toJson stamped storable).plain
  · rw [RawJson.toJson?_raw storable (Nat.le_sub_one_of_lt nests)]
    exact ⟨_, rfl, Json.sameAs_ordered storable, Json.InOrder.ordered_eq⟩
  · rw [RawJson.toJson?_raw_eq_none storable (Nat.sub_one_lt_of_le (by decide) deep)]
    rfl

/-- An entry of the last moment there is, with line breaks in its strings and a value
that is not in order. -/
def shuffled : ReportEntry where
  timestamp := maxSignificand
  run := ⟨.nil⟩
  ticket := ⟨List.replicate 32 0, Digest.length_zeros⟩
  lambda := "sum\nlines"
  key := ""
  value := .object [("times", .array [.number (.whole (-1)), .null]),
    ("log", .string "first\r\n\tsecond ")]

theorem storable_shuffled : shuffled.value.Storable := by
  refine .object (by simp [OrderedMap.Distinct, OrderedMap.keys]) ?_
  simp only [List.forall_mem_cons]
  refine ⟨.array ?_, .string _, List.forall_mem_nil _⟩
  simp only [List.forall_mem_cons]
  exact ⟨.whole (by decide) (by decide), .null, List.forall_mem_nil _⟩

theorem line_reads_back_shuffled : (∀ c ∈ shuffled.line.toList, 0x20 ≤ c.toNat) ∧
    ∃ value, ofLine? (shuffled.line ++ "\r\n \u2003\n") = some { shuffled with value } ∧
      shuffled.value.SameAs value := by
  have blank : ∀ c ∈ "\r\n \u2003\n".toList, Text.isBlank c = true := by
    simp [Text.isBlank]
  obtain ⟨plain, read, _⟩ :=
    line_reads_back shuffled "\r\n \u2003\n" (by decide) storable_shuffled blank
  obtain ⟨value, found, same, _⟩ := read (by decide)
  exact ⟨plain, value, found, same⟩

end ReportEntry

end TicketFlow
