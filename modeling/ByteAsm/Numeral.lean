import ByteAsm.Text.Digit
import ByteAsm.Text.Hex

/-! Numbers in a source text. -/
namespace ByteAsm

open Text

/-- A number as it is written: hexadecimal digits behind `0x`, or decimal digits. -/
inductive Literal
  | hex (digits : List Char)
  | decimal (digits : List Char)
  deriving DecidableEq, Repr

namespace Numeral

/-- Why a number is not read: too many decimal digits, or a zero in front of a decimal literal
that is not zero. -/
inductive Fault
  | tooLong (count : Nat)
  | leadingZero (digits : List Char)
  deriving DecidableEq, Repr

def maxDigits : Nat := 4300

def decimalValue (digits : List Char) : Nat :=
  digits.foldl (fun n c => 10 * n + (digitValue? c).getD 0) 0

/-- Read decimal digits, with any number of zeros in front. -/
def readDecimal (digits : List Char) : Except Fault Nat :=
  if digits.length ≤ maxDigits then .ok (decimalValue digits) else .error (.tooLong digits.length)

def startsWithZero (digits : List Char) : Bool := digits.head?.bind digitValue? == some 0

end Numeral

open Numeral in
/-- The value of a literal. Hexadecimal literals have no limit on their length. -/
def Literal.value : Literal → Except Fault Nat
  | hex digits => .ok (hexValue (digits.map Char.toNat))
  | decimal digits =>
    match readDecimal digits with
    | .error e => .error e
    | .ok n => if startsWithZero digits ∧ n ≠ 0 then .error (.leadingZero digits) else .ok n

namespace Numeral

theorem readDecimal_eq_ok_iff {digits : List Char} {n : Nat} :
    readDecimal digits = .ok n ↔ digits.length ≤ maxDigits ∧ decimalValue digits = n := by
  grind [readDecimal]

theorem readDecimal_eq_error_iff {digits : List Char} {e : Fault} :
    readDecimal digits = .error e ↔ maxDigits < digits.length ∧ e = .tooLong digits.length := by
  grind [readDecimal]

end Numeral

end ByteAsm
