namespace TicketFlow.Text

/-! The UTF-8 bytes of a text, as a list. -/

def bytes (text : String) : List UInt8 :=
  text.toList.flatMap String.utf8EncodeChar

theorem bytes_append (left right : String) :
    bytes (left ++ right) = bytes left ++ bytes right := by
  simp [bytes]

end TicketFlow.Text
