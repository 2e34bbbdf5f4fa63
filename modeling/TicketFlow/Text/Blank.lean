namespace TicketFlow.Text

/-! Blank characters: the Unicode property White_Space, and trimming by it. -/

def isBlank (c : Char) : Bool :=
  let code := c.toNat
  (0x9 ≤ code && code ≤ 0xd) || code == 0x20 || code == 0x85 || code == 0xa0 ||
    code == 0x1680 || (0x2000 ≤ code && code ≤ 0x200a) || code == 0x2028 ||
    code == 0x2029 || code == 0x202f || code == 0x205f || code == 0x3000

def trimStartChars (chars : List Char) : List Char :=
  chars.dropWhile isBlank

def trimEndChars (chars : List Char) : List Char :=
  (chars.reverse.dropWhile isBlank).reverse

def trimEnd (text : String) : String :=
  String.ofList (trimEndChars text.toList)

def trim (text : String) : String :=
  String.ofList (trimEndChars (trimStartChars text.toList))

end TicketFlow.Text
