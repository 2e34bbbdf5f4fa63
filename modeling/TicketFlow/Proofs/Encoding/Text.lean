import TicketFlow.Digest.Basic

namespace TicketFlow

/-! Texts that can be read back.

The bytes of a text determine it, the hexadecimal digits of bytes determine
them, and so the text of a digest determines the digest.
-/

theorem Text.bytes_injective : Function.Injective Text.bytes := by
  intro left right same
  rw [← String.toByteArray_inj, ← String.utf8Encode_toList, ← String.utf8Encode_toList]
  exact congrArg List.toByteArray same

namespace Hex

/-- A digit is one byte long and has the value that it was written for. -/
theorem value?_digit {value : UInt8} (small : value < 16) :
    ∃ byte, String.utf8EncodeChar (digit value) = [byte] ∧ value? byte = some value := by
  have each : ∀ nibble : Fin 16,
      (String.utf8EncodeChar (digit (UInt8.ofNat nibble))).map value? =
        [some (UInt8.ofNat nibble)] := by
    decide +kernel
  have read := each ⟨value.toNat, UInt8.lt_iff_toNat_lt.mp small⟩
  rw [UInt8.ofNat_toNat] at read
  exact List.map_eq_singleton_iff.mp read

theorem halves (byte : UInt8) :
    byte >>> 4 < 16 ∧ byte &&& 0x0f < 16 ∧ byte >>> 4 <<< 4 ||| byte &&& 0x0f = byte := by
  have each : ∀ code : Fin 256, UInt8.ofNat code >>> 4 < 16 ∧
      UInt8.ofNat code &&& 0x0f < 16 ∧
      UInt8.ofNat code >>> 4 <<< 4 ||| UInt8.ofNat code &&& 0x0f = UInt8.ofNat code := by
    decide +kernel
  have joined := each ⟨byte.toNat, byte.toNat_lt⟩
  rwa [UInt8.ofNat_toNat] at joined

/-- Reading takes back what writing has made of any bytes. -/
theorem decodePairs_text (bytes : List UInt8) (position : Nat) :
    decodePairs (Text.bytes (text bytes)) position = .ok bytes := by
  rw [text, Text.bytes, String.toList_ofList]
  induction bytes generalizing position with
  | nil => rfl
  | cons byte rest ih =>
      obtain ⟨high, low, joined⟩ := halves byte
      obtain ⟨first, one, upper⟩ := value?_digit high
      obtain ⟨second, two, lower⟩ := value?_digit low
      have written : (encode (byte :: rest)).flatMap String.utf8EncodeChar =
          first :: second :: (encode rest).flatMap String.utf8EncodeChar := by
        simp [encode, ofByte, one, two]
      rw [written]
      simp only [decodePairs, upper, lower, ih, Except.map, joined]

theorem text_injective : Function.Injective text := by
  intro left right same
  have read := decodePairs_text left 0
  rw [same, decodePairs_text right 0] at read
  exact (Except.ok.inj read).symm

end Hex

theorem Digest.text_injective : Function.Injective Digest.text := by
  rintro ⟨left, _⟩ ⟨right, _⟩ same
  have digits : Text.bytes mark ++ Text.bytes (Hex.text left) =
      Text.bytes mark ++ Text.bytes (Hex.text right) := by
    rw [← Text.bytes_append, ← Text.bytes_append]
    exact congrArg Text.bytes same
  obtain rfl := Hex.text_injective (Text.bytes_injective (List.append_cancel_left digits))
  rfl

end TicketFlow
