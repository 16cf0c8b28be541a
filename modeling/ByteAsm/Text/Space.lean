import ByteAsm.Text.Ranges

/-! White space: separators, line ends and the control characters that act as such. -/
namespace ByteAsm.Text

def spaceRanges : Ranges :=
  [(0x9, 0xD), (0x1C, 0x20), (0x85, 0x85), (0xA0, 0xA0), (0x1680, 0x1680), (0x2000, 0x200A),
   (0x2028, 0x2029), (0x202F, 0x202F), (0x205F, 0x205F), (0x3000, 0x3000)]

def isSpace (c : Char) : Bool := spaceRanges.covers c

def dropSpace (text : List Char) : List Char := text.dropWhile isSpace

end ByteAsm.Text
