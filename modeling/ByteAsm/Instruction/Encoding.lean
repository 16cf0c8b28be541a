import ByteAsm.Instruction

/-! The byte code of the instructions. The first byte is the opcode and determines the length
and the layout of the operands, so `decode?` reads back what `encode` writes. -/
namespace ByteAsm

def wordBytes (n : Nat) : List UInt8 := [UInt8.ofNat (n / 0x100), UInt8.ofNat n]

def wordOfBytes (hi lo : UInt8) : Nat := hi.toNat * 0x100 + lo.toNat

def packFields (a b c : Nat) : UInt8 := UInt8.ofNat (a * 0x10 + b * 4 + c)

/-- The two-bit field of a byte that starts at the place of value `unit`. -/
def registerAt (byte : UInt8) (unit : Nat) : Register := .ofNat (byte.toNat / unit)

namespace RegisterPair

def index : RegisterPair → Nat
  | r01 => 0
  | r23 => 1

theorem index_lt (p : RegisterPair) : p.index < 4 := by
  cases p <;> decide

def ofByte (b : UInt8) : RegisterPair := if b.toNat % 2 = 0 then r01 else r23

end RegisterPair

namespace Opcode

def byte : Opcode → UInt8
  | nop => 0x00
  | hlt => 0x01
  | ldi => 0x02
  | ld => 0x03
  | st => 0x04
  | mov => 0x05
  | binary .add => 0x06
  | binary .adc => 0x07
  | binary .and => 0x08
  | branch .jmp => 0x09
  | out => 0x0A
  | cpi => 0x0B
  | branch .beq => 0x0C
  | branch .bgt => 0x0D
  | ldir => 0x0E
  | stir => 0x0F
  | ldirp => 0x10
  | stirp => 0x11
  | addiw => 0x12
  | addi => 0x13
  | outp => 0x14
  | outa => 0x15
  | binary .or => 0x16
  | not => 0x17
  | binary .xor => 0x18
  | branch .blt => 0x19
  | branch .call => 0x20
  | ret => 0x21

def all : List Opcode :=
  [nop, hlt, ldi, ld, st, mov, binary .add, binary .adc, binary .and, branch .jmp, out, cpi,
   branch .beq, branch .bgt, ldir, stir, ldirp, stirp, addiw, addi, outp, outa, binary .or, not,
   binary .xor, branch .blt, branch .call, ret]

def ofByte? (b : UInt8) : Option Opcode := all.find? (·.byte = b)

theorem ofByte?_byte (op : Opcode) : ofByte? op.byte = some op := by
  cases op with
  | binary op => cases op <;> rfl
  | branch op => cases op <;> rfl
  | _ => rfl

end Opcode

namespace Instruction

def operandBytes : Instruction UInt16 → List UInt8
  | nop | hlt | ret => []
  | ldi r v | addi r v | cpi r v => [packFields 0 0 r, v]
  | ld r a | st r a => wordBytes (r * 0x4000 + a)
  | mov rd rs => [packFields 0 rd rs]
  | out rs | outa rs => [packFields 0 0 rs]
  | ldir rd ra => [0, packFields 0 rd ra]
  | stir ra rs => [0, packFields 0 rs ra]
  | ldirp r p | stirp p r => [packFields r 0 p.index]
  | addiw p v => UInt8.ofNat p.index :: wordBytes v.toNat
  | outp p => [UInt8.ofNat p.index]
  | not rd rs => [packFields rd rs 0]
  | binary _ rd rx ry => [packFields rd rx ry]
  | branch _ t => wordBytes t.toNat

def encode (i : Instruction UInt16) : List UInt8 := i.opcode.byte :: i.operandBytes

/-- The bytes of an instruction whose target is not known yet: the target is left zero. -/
def draft {τ : Type} (i : Instruction τ) : List UInt8 := (i.map fun _ => 0).encode

end Instruction

def Opcode.decode? (op : Opcode) (bytes : List UInt8) :
    Option (Instruction UInt16 × List UInt8) :=
  match op, bytes with
  | nop, rest => some (.nop, rest)
  | hlt, rest => some (.hlt, rest)
  | ret, rest => some (.ret, rest)
  | ldi, b :: v :: rest => some (.ldi (registerAt b 1) v, rest)
  | addi, b :: v :: rest => some (.addi (registerAt b 1) v, rest)
  | cpi, b :: v :: rest => some (.cpi (registerAt b 1) v, rest)
  | ld, hi :: lo :: rest =>
    some (.ld (registerAt hi 0x40) (directAddress (wordOfBytes hi lo)), rest)
  | st, hi :: lo :: rest =>
    some (.st (registerAt hi 0x40) (directAddress (wordOfBytes hi lo)), rest)
  | mov, b :: rest => some (.mov (registerAt b 4) (registerAt b 1), rest)
  | out, b :: rest => some (.out (registerAt b 1), rest)
  | outa, b :: rest => some (.outa (registerAt b 1), rest)
  | ldir, _ :: b :: rest => some (.ldir (registerAt b 4) (registerAt b 1), rest)
  | stir, _ :: b :: rest => some (.stir (registerAt b 1) (registerAt b 4), rest)
  | ldirp, b :: rest => some (.ldirp (registerAt b 0x10) (.ofByte b), rest)
  | stirp, b :: rest => some (.stirp (.ofByte b) (registerAt b 0x10), rest)
  | addiw, b :: hi :: lo :: rest =>
    some (.addiw (.ofByte b) (UInt16.ofNat (wordOfBytes hi lo)), rest)
  | outp, b :: rest => some (.outp (.ofByte b), rest)
  | not, b :: rest => some (.not (registerAt b 0x10) (registerAt b 4), rest)
  | binary op, b :: rest =>
    some (.binary op (registerAt b 0x10) (registerAt b 4) (registerAt b 1), rest)
  | branch op, hi :: lo :: rest =>
    some (.branch op (UInt16.ofNat (wordOfBytes hi lo)), rest)
  | _, _ => none

def Instruction.decode? : List UInt8 → Option (Instruction UInt16 × List UInt8)
  | [] => none
  | b :: bytes => (Opcode.ofByte? b).bind (·.decode? bytes)

theorem registerAt_packFields_low (a b : Nat) (r : Register) :
    registerAt (packFields a b r) 1 = r := by
  apply Fin.ext
  simp only [registerAt, Register.ofNat, packFields, Fin.ofNat, UInt8.toNat_ofNat']
  omega

theorem registerAt_packFields_middle (a : Nat) (r : Register) {c : Nat} (hc : c < 4) :
    registerAt (packFields a r c) 4 = r := by
  apply Fin.ext
  simp only [registerAt, Register.ofNat, packFields, Fin.ofNat, UInt8.toNat_ofNat']
  omega

theorem registerAt_packFields_high (r : Register) {b c : Nat} (hb : b < 4) (hc : c < 4) :
    registerAt (packFields r b c) 0x10 = r := by
  apply Fin.ext
  simp only [registerAt, Register.ofNat, packFields, Fin.ofNat, UInt8.toNat_ofNat']
  omega

theorem ofByte_packFields (a b : Nat) (p : RegisterPair) :
    RegisterPair.ofByte (packFields a b p.index) = p := by
  cases p <;> simp only [RegisterPair.ofByte, packFields, RegisterPair.index, UInt8.toNat_ofNat'] <;>
    split <;> first | rfl | omega

theorem ofByte_index (p : RegisterPair) : RegisterPair.ofByte (UInt8.ofNat p.index) = p := by
  cases p <;> rfl

theorem wordOfBytes_wordBytes {n : Nat} (h : n < 0x10000) :
    wordOfBytes (UInt8.ofNat (n / 0x100)) (UInt8.ofNat n) = n := by
  simp only [wordOfBytes, UInt8.toNat_ofNat']
  omega

theorem registerAt_wordBytes (r : Register) (a : Fin 0x4000) :
    registerAt (UInt8.ofNat ((r * 0x4000 + a : Nat) / 0x100)) 0x40 = r := by
  apply Fin.ext
  simp only [registerAt, Register.ofNat, Fin.ofNat, UInt8.toNat_ofNat']
  omega

theorem address_wordBytes (r : Register) (a : Fin 0x4000) :
    directAddress (wordOfBytes (UInt8.ofNat ((r * 0x4000 + a : Nat) / 0x100))
      (UInt8.ofNat (r * 0x4000 + a))) = a := by
  apply Fin.ext
  rw [wordOfBytes_wordBytes (by omega)]
  simp only [directAddress, Fin.ofNat]
  omega

theorem target_wordBytes (t : UInt16) :
    UInt16.ofNat (wordOfBytes (UInt8.ofNat (t.toNat / 0x100)) (UInt8.ofNat t.toNat)) = t := by
  rw [wordOfBytes_wordBytes t.toNat_lt, UInt16.ofNat_toNat]

theorem Opcode.decode?_operandBytes_append (i : Instruction UInt16) (rest : List UInt8) :
    i.opcode.decode? (i.operandBytes ++ rest) = some (i, rest) := by
  cases i with
  | ld rd a =>
    show some (Instruction.ld _ _, rest) = _
    rw [registerAt_wordBytes, address_wordBytes]
  | st rs a =>
    show some (Instruction.st _ _, rest) = _
    rw [registerAt_wordBytes, address_wordBytes]
  | addiw p v =>
    show some (Instruction.addiw _ _, rest) = _
    rw [ofByte_index, target_wordBytes]
  | branch op t =>
    show some (Instruction.branch op _, rest) = _
    rw [target_wordBytes]
  | ldir rd ra =>
    show some (Instruction.ldir _ _, rest) = _
    rw [registerAt_packFields_low, registerAt_packFields_middle _ rd ra.isLt]
  | stir ra rs =>
    show some (Instruction.stir _ _, rest) = _
    rw [registerAt_packFields_low, registerAt_packFields_middle _ rs ra.isLt]
  | mov rd rs =>
    show some (Instruction.mov _ _, rest) = _
    rw [registerAt_packFields_low, registerAt_packFields_middle _ rd rs.isLt]
  | ldirp rd p =>
    show some (Instruction.ldirp _ _, rest) = _
    rw [registerAt_packFields_high rd (by decide) p.index_lt, ofByte_packFields]
  | stirp p rs =>
    show some (Instruction.stirp _ _, rest) = _
    rw [registerAt_packFields_high rs (by decide) p.index_lt, ofByte_packFields]
  | not rd rs =>
    show some (Instruction.not _ _, rest) = _
    rw [registerAt_packFields_high rd rs.isLt (by decide),
      registerAt_packFields_middle _ rs (by decide)]
  | binary op rd rx ry =>
    show some (Instruction.binary op _ _ _, rest) = _
    rw [registerAt_packFields_low, registerAt_packFields_middle _ rx ry.isLt,
      registerAt_packFields_high rd rx.isLt ry.isLt]
  | ldi r v =>
    show some (Instruction.ldi _ v, rest) = _
    rw [registerAt_packFields_low]
  | addi r v =>
    show some (Instruction.addi _ v, rest) = _
    rw [registerAt_packFields_low]
  | cpi r v =>
    show some (Instruction.cpi _ v, rest) = _
    rw [registerAt_packFields_low]
  | out r =>
    show some (Instruction.out _, rest) = _
    rw [registerAt_packFields_low]
  | outa r =>
    show some (Instruction.outa _, rest) = _
    rw [registerAt_packFields_low]
  | outp p =>
    show some (Instruction.outp _, rest) = _
    rw [ofByte_index]
  | nop | hlt | ret => rfl

/-- Decoding undoes encoding and leaves what follows. -/
theorem Instruction.decode?_encode_append (i : Instruction UInt16) (rest : List UInt8) :
    decode? (i.encode ++ rest) = some (i, rest) := by
  simp [encode, decode?, Opcode.ofByte?_byte, Opcode.decode?_operandBytes_append]

end ByteAsm
