import ByteAsm.Text.Hex

/-! Places in a byte sequence that cannot be read. -/
namespace ByteAsm.Text

/-- The first stretch of a byte sequence that cannot be read, with its first byte. -/
structure Malformed (ρ : Type) where
  byte : UInt8
  position : Nat
  length : Nat
  reason : ρ
  deriving DecidableEq, Repr

/-- The stretch in words: a single byte is shown, of more only the positions are. -/
def Malformed.stretch {ρ : Type} (m : Malformed ρ) : String :=
  if m.length = 1 then s!"byte 0x{hexText 2 m.byte.toNat} in position {m.position}"
  else s!"bytes in position {m.position}-{m.position + m.length - 1}"

end ByteAsm.Text
