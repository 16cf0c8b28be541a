/-! The instruction set of a machine with four 8-bit registers. -/
namespace ByteAsm

abbrev Register := Fin 4

/-- A register number counts modulo the number of registers. -/
def Register.ofNat (n : Nat) : Register := Fin.ofNat 4 n

/-- Direct addresses have fourteen bits. -/
def directAddress (n : Nat) : Fin 0x4000 := Fin.ofNat 0x4000 n

/-- Two neighbouring registers that hold one 16-bit word. -/
inductive RegisterPair
  | r01
  | r23
  deriving DecidableEq, Repr

/-- Operations on two source registers with a destination register. -/
inductive BinaryOp
  | add
  | adc
  | and
  | or
  | xor
  deriving DecidableEq, Repr

/-- Transfers of control to a target in the code. -/
inductive BranchOp
  | jmp
  | beq
  | bgt
  | blt
  | call
  deriving DecidableEq, Repr

inductive Opcode
  | nop
  | hlt
  | ret
  | ldi
  | ld
  | st
  | ldir
  | stir
  | ldirp
  | stirp
  | mov
  | binary (op : BinaryOp)
  | not
  | addi
  | addiw
  | cpi
  | out
  | outp
  | outa
  | branch (op : BranchOp)
  deriving DecidableEq, Repr

/-- One instruction. `τ` is the type of branch targets: names before the labels are known,
addresses afterwards. -/
inductive Instruction (τ : Type)
  | nop
  | hlt
  | ret
  | ldi (rd : Register) (value : UInt8)
  | ld (rd : Register) (address : Fin 0x4000)
  | st (rs : Register) (address : Fin 0x4000)
  | ldir (rd ra : Register)
  | stir (ra rs : Register)
  | ldirp (rd : Register) (pair : RegisterPair)
  | stirp (pair : RegisterPair) (rs : Register)
  | mov (rd rs : Register)
  | binary (op : BinaryOp) (rd rx ry : Register)
  | not (rd rs : Register)
  | addi (rd : Register) (value : UInt8)
  | addiw (pair : RegisterPair) (value : UInt16)
  | cpi (rs : Register) (value : UInt8)
  | out (rs : Register)
  | outp (pair : RegisterPair)
  | outa (rs : Register)
  | branch (op : BranchOp) (target : τ)
  deriving DecidableEq, Repr

namespace Instruction

variable {τ υ : Type}

def opcode : Instruction τ → Opcode
  | nop => .nop
  | hlt => .hlt
  | ret => .ret
  | ldi .. => .ldi
  | ld .. => .ld
  | st .. => .st
  | ldir .. => .ldir
  | stir .. => .stir
  | ldirp .. => .ldirp
  | stirp .. => .stirp
  | mov .. => .mov
  | binary op .. => .binary op
  | not .. => .not
  | addi .. => .addi
  | addiw .. => .addiw
  | cpi .. => .cpi
  | out .. => .out
  | outp .. => .outp
  | outa .. => .outa
  | branch op _ => .branch op

def map (f : τ → υ) : Instruction τ → Instruction υ
  | nop => nop
  | hlt => hlt
  | ret => ret
  | ldi rd v => ldi rd v
  | ld rd a => ld rd a
  | st rs a => st rs a
  | ldir rd ra => ldir rd ra
  | stir ra rs => stir ra rs
  | ldirp rd p => ldirp rd p
  | stirp p rs => stirp p rs
  | mov rd rs => mov rd rs
  | binary op rd rx ry => binary op rd rx ry
  | not rd rs => not rd rs
  | addi rd v => addi rd v
  | addiw p v => addiw p v
  | cpi rs v => cpi rs v
  | out rs => out rs
  | outp p => outp p
  | outa rs => outa rs
  | branch op t => branch op (f t)

def target? : Instruction τ → Option τ
  | branch _ t => some t
  | _ => none

@[simp] theorem opcode_map (f : τ → υ) (i : Instruction τ) : (i.map f).opcode = i.opcode := by
  cases i <;> rfl

@[simp] theorem target?_map (f : τ → υ) (i : Instruction τ) :
    (i.map f).target? = i.target?.map f := by
  cases i <;> rfl

end Instruction

end ByteAsm
