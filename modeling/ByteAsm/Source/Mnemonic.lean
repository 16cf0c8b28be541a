import ByteAsm.Instruction

/-! The mnemonics of the opcodes and the operands that follow each of them. -/
namespace ByteAsm

namespace Source

/-- The kinds of operands: `R` and a register number, the same in parentheses, a register
pair, the same in parentheses, a number, the name of a label. -/
inductive Slot
  | register
  | indirect
  | pair
  | indirectPair
  | literal
  | name
  deriving DecidableEq, Repr

end Source

open Source

namespace Opcode

def trialOrder : List Opcode :=
  [ldi, ld, st, binary .add, binary .adc, out, cpi, branch .bgt, branch .beq, branch .jmp, mov,
   hlt, nop, ldir, stir, ldirp, stirp, addiw, addi, outp, outa, binary .and, binary .or,
   binary .xor, not, branch .blt, branch .call, ret]

def word : Opcode → List Char
  | nop => ['N', 'O', 'P']
  | hlt => ['H', 'L', 'T']
  | ret => ['R', 'E', 'T']
  | ldi => ['L', 'D', 'I']
  | ld => ['L', 'D']
  | st => ['S', 'T']
  | ldir => ['L', 'D', 'I', 'R']
  | stir => ['S', 'T', 'I', 'R']
  | ldirp => ['L', 'D', 'I', 'R', 'P']
  | stirp => ['S', 'T', 'I', 'R', 'P']
  | mov => ['M', 'O', 'V']
  | binary .add => ['A', 'D', 'D']
  | binary .adc => ['A', 'D', 'C']
  | binary .and => ['A', 'N', 'D']
  | binary .or => ['O', 'R']
  | binary .xor => ['X', 'O', 'R']
  | not => ['N', 'O', 'T']
  | addi => ['A', 'D', 'D', 'I']
  | addiw => ['A', 'D', 'D', 'I', 'W']
  | cpi => ['C', 'P', 'I']
  | out => ['O', 'U', 'T']
  | outp => ['O', 'U', 'T', 'P']
  | outa => ['O', 'U', 'T', 'A']
  | branch .jmp => ['J', 'M', 'P']
  | branch .beq => ['B', 'E', 'Q']
  | branch .bgt => ['B', 'G', 'T']
  | branch .blt => ['B', 'L', 'T']
  | branch .call => ['C', 'A', 'L', 'L']

abbrev slots : Opcode → List Slot
  | nop | hlt | ret => []
  | ldi | ld | st | addi | cpi => [.register, .literal]
  | ldir => [.register, .indirect]
  | stir => [.indirect, .register]
  | ldirp => [.register, .indirectPair]
  | stirp => [.indirectPair, .register]
  | mov | not => [.register, .register]
  | binary _ => [.register, .register, .register]
  | addiw => [.pair, .literal]
  | out | outa => [.register]
  | outp => [.pair]
  | branch _ => [.name]

/-- White space behind a direct load or store belongs to the statement. -/
def takesSpace : Opcode → Bool
  | ld | st => true
  | _ => false

theorem mem_trialOrder (op : Opcode) : op ∈ trialOrder := by
  cases op with
  | binary op => cases op <;> decide
  | branch op => cases op <;> decide
  | _ => decide

theorem word_ne_nil (op : Opcode) : op.word ≠ [] := by
  cases op with
  | binary op => cases op <;> decide
  | branch op => cases op <;> decide
  | _ => decide

end Opcode

end ByteAsm
