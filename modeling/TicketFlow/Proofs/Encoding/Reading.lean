import TicketFlow.Proofs.Data.OrderedMap
import TicketFlow.Proofs.Encoding.Text
import TicketFlow.Proofs.Json.Text
import TicketFlow.Ticket

namespace TicketFlow

/-! What stands in the text of a term is read for what it is.

Addresses and identifiers are read from their texts, numbers from their digits,
and bindings from the members of an object.
-/

section Identifiers

theorem Hex.length_bytes_text (bytes : List UInt8) :
    (Text.bytes (Hex.text bytes)).length = 2 * bytes.length :=
  Hex.length_of_decodePairs (Hex.decodePairs_text bytes 0)

theorem Hex.decodeExactly_text {bytes : List UInt8}
    {size : Nat} (sized : bytes.length = size) :
    Hex.decodeExactly size (Text.bytes (Hex.text bytes)) = .ok bytes := by
  rw [Hex.decodeExactly, Hex.length_bytes_text, sized, if_neg (by omega),
    if_neg (by simp), Hex.decodePairs_text]

theorem Digest.afterMark_append (marks rest : List UInt8) :
    afterMark marks (marks ++ rest) = some rest := by
  induction marks with
  | nil => rfl
  | cons byte marks ih => rw [List.cons_append, afterMark, if_pos rfl, ih]

theorem Digest.parse_text (digest : Digest) : Digest.parse digest.text = .ok digest := by
  have digits : afterMark (Text.bytes mark) (Text.bytes digest.text) =
      some (Text.bytes (Hex.text digest.bytes)) := by
    rw [Digest.text, Text.bytes_append, afterMark_append]
  have bytes := Hex.decodeExactly_text digest.length_bytes
  unfold Digest.parse
  rw [digits]
  simp only
  split
  next fault decoded => simp [bytes] at decoded
  next read decoded =>
    obtain rfl := Except.ok.inj (bytes.symm.trans decoded)
    rfl

theorem Hex.bytes_text_append (left right : List UInt8) :
    Text.bytes (Hex.text (left ++ right)) =
      Text.bytes (Hex.text left) ++ Text.bytes (Hex.text right) := by
  rw [← Text.bytes_append, Hex.text, Hex.text, Hex.text, Hex.encode, List.flatMap_append,
    String.ofList_append]
  rfl

/-- Five groups of digits with hyphens between them are read as the digits. -/
theorem Uuid.ofGroups?_joined (first second third fourth fifth : List UInt8)
    (one : first.length = 8) (two : second.length = 4) (three : third.length = 4)
    (four : fourth.length = 4) (five : fifth.length = 12) :
    ofGroups? (first ++ [45] ++ second ++ [45] ++ third ++ [45] ++ fourth ++ [45] ++ fifth) =
      ofDigits? (first ++ second ++ third ++ fourth ++ fifth) := by
  unfold ofGroups?
  rw [if_pos (by simp [one, two, three, four, five])]
  simp (disch := omega) [List.drop_append, List.drop_eq_nil_of_le, one, two, three, four]

theorem Uuid.parse?_text (uuid : Uuid) : Uuid.parse? uuid.text = some uuid := by
  obtain ⟨bytes, sized⟩ := uuid
  have hyphen : Text.bytes "-" = [45] := by decide
  have groups : Text.bytes (Uuid.text ⟨bytes, sized⟩) =
      Text.bytes (Hex.text (bytes.take 4)) ++
        [45] ++ Text.bytes (Hex.text ((bytes.drop 4).take 2)) ++
        [45] ++ Text.bytes (Hex.text ((bytes.drop 6).take 2)) ++
        [45] ++ Text.bytes (Hex.text ((bytes.drop 8).take 2)) ++
        [45] ++ Text.bytes (Hex.text (bytes.drop 10)) := by
    simp only [Uuid.text, Text.bytes_append, hyphen]
  have joined : bytes.take 4 ++ (bytes.drop 4).take 2 ++ (bytes.drop 6).take 2 ++
      (bytes.drop 8).take 2 ++ bytes.drop 10 = bytes := by
    have next (start size : Nat) :
        (bytes.drop start).take size ++ bytes.drop (start + size) = bytes.drop start := by
      rw [← List.drop_drop, List.take_append_drop]
    rw [List.append_assoc, next 8 2, List.append_assoc, next 6 2, List.append_assoc,
      next 4 2, List.take_append_drop]
  have read := ofGroups?_joined (Text.bytes (Hex.text (bytes.take 4)))
    (Text.bytes (Hex.text ((bytes.drop 4).take 2)))
    (Text.bytes (Hex.text ((bytes.drop 6).take 2)))
    (Text.bytes (Hex.text ((bytes.drop 8).take 2))) (Text.bytes (Hex.text (bytes.drop 10)))
    (by simp [Hex.length_bytes_text, sized]) (by simp [Hex.length_bytes_text, sized])
    (by simp [Hex.length_bytes_text, sized]) (by simp [Hex.length_bytes_text, sized])
    (by simp [Hex.length_bytes_text, sized])
  rw [← groups, ← Hex.bytes_text_append, ← Hex.bytes_text_append, ← Hex.bytes_text_append,
    ← Hex.bytes_text_append, joined] at read
  have length : (Text.bytes (Uuid.text ⟨bytes, sized⟩)).length = 36 := by
    simp [groups, Hex.length_bytes_text, sized]
  unfold parse?
  simp only [length]
  rw [if_neg (by decide), if_pos trivial, read, ofDigits?, Hex.decode?,
    Hex.length_bytes_text, if_pos (by omega), Hex.decodePairs_text]
  exact dif_pos sized

end Identifiers

namespace RawJson

section Parts

theorem nat?_raw {value : Nat} (fits : value ≤ Numeral.maxSignificand) :
    nat? (Json.nat value).raw = some value := by
  have positive : ¬(value : Int) < 0 := by omega
  simp [Json.nat, Json.raw, nat?, Numeral.nat?, Numeral.whole?, Numeral.signed,
    natOfDigits_decimal, positive, fits]

theorem le_of_nat? {tree : RawJson} {value : Nat} (read : tree.nat? = some value) :
    value ≤ Numeral.maxSignificand := by
  unfold nat? Numeral.nat? at read
  split at read
  · split at read
    · simp at read
    · simpa using (Option.filter_eq_some_iff.mp read).2
  · simp at read

theorem blockId?_raw {block : BlockId} (fits : block.index ≤ maxBlock) :
    blockId? block.toJson.raw = some block := by
  have small : block.index ≤ Numeral.maxSignificand := Nat.le_trans fits (by decide)
  rw [blockId?, BlockId.toJson, nat?_raw small, Option.filter_some,
    if_pos (by simpa using fits)]
  rfl

theorem le_of_blockId? {tree : RawJson} {block : BlockId}
    (read : tree.blockId? = some block) : block.index ≤ maxBlock := by
  obtain ⟨index, found, rfl⟩ := Option.map_eq_some_iff.mp read
  simpa using (Option.filter_eq_some_iff.mp found).2

theorem digest?_raw (digest : Digest) : digest? digest.toJson.raw = some digest := by
  simp [digest?, Digest.toJson, Json.raw, string?, Digest.parse_text, Except.toOption]

theorem runId?_raw (run : RunId) : runId? (Json.string run.uuid.text).raw = some run := by
  simp [runId?, Json.raw, string?, Uuid.parse?_text]

end Parts

end RawJson

end TicketFlow
