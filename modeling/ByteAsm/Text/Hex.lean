/-! Hexadecimal digits, read and written. -/
namespace ByteAsm.Text

def hexDigitValue? (code : Nat) : Option Nat :=
  if 0x30 ≤ code ∧ code ≤ 0x39 then some (code - 0x30)
  else if 0x41 ≤ code ∧ code ≤ 0x46 then some (code - 0x41 + 10)
  else if 0x61 ≤ code ∧ code ≤ 0x66 then some (code - 0x61 + 10)
  else none

def isHexDigit (c : Char) : Bool := (hexDigitValue? c.toNat).isSome

def hexValue (codes : List Nat) : Nat :=
  codes.foldl (fun n code => 16 * n + (hexDigitValue? code).getD 0) 0

/-- A number in lower-case hexadecimal digits, with zeros in front up to the given width. -/
def hexText (width n : Nat) : String :=
  let digits := Nat.toDigits 16 n
  String.ofList (List.replicate (width - digits.length) '0' ++ digits)

/-- A code point as an escape of two, four or eight hexadecimal digits. -/
def escapeText (code : Nat) : String :=
  if code ≤ 0xFF then "\\x" ++ hexText 2 code
  else if code ≤ 0xFFFF then "\\u" ++ hexText 4 code
  else "\\U" ++ hexText 8 code

end ByteAsm.Text
