namespace TicketFlow.Text

/-! Single characters between apostrophes, as diagnostics show them.

Only the characters up to U+00FF occur: a diagnostic quotes one byte.  The
apostrophe, the backslash and the four short escapes take a backslash; the other
characters of this range that print nothing are given by number.
-/

def hexNumber (value : Nat) : String :=
  String.ofList (Nat.toDigits 16 value)

def printsNothing (code : Nat) : Bool :=
  code < 0x20 || (0x7f ≤ code && code ≤ 0xa0) || code == 0xad

def quoteByte (byte : UInt8) : String :=
  let code := byte.toNat
  let body :=
    if code = 0x00 then "\\0"
    else if code = 0x09 then "\\t"
    else if code = 0x0a then "\\n"
    else if code = 0x0d then "\\r"
    else if code = 0x27 then "\\'"
    else if code = 0x5c then "\\\\"
    else if printsNothing code then "\\u\x7b" ++ hexNumber code ++ "\x7d"
    else (Char.ofNat code).toString
  "'" ++ body ++ "'"

end TicketFlow.Text
