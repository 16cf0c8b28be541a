import ByteAsm.Assembly.State
import ByteAsm.Instruction.Encoding
import ByteAsm.Outcome
import ByteAsm.Source.Statement

/-! What a statement does. The action of a statement is worked out from its text alone, and
then performed on a state. -/
namespace ByteAsm

open Source Text

inductive Action
  /-- Give the next code address a name. -/
  | define (name : String)
  /-- Place an instruction at the next code address. -/
  | emit (p : Placement) (i : Instruction String)
  /-- Add a zero byte to the end of the image. -/
  | pad
  /-- Place bytes at the next data address. -/
  | store (p : Placement) (bytes : List UInt8)
  /-- Report a token that is no statement. -/
  | complain (token : List Char)

/-- Most instructions are added to what the image holds. Indirect loads and stores, immediate
additions and the outputs of pairs and characters overwrite it. -/
def Instruction.placement {τ : Type} : Instruction τ → Placement
  | ldir .. | stir .. | ldirp .. | stirp .. | addi .. | addiw .. | outp .. | outa .. => .overwrite
  | _ => .add

def Source.registerOf (digits : List Char) : Except Numeral.Fault Register :=
  (Numeral.readDecimal digits).map .ofNat

/-- The instruction with the given opcode and operands. Numbers are read from left to
right and cut to the width of their field. -/
def Opcode.instruction :
    (op : Opcode) → Operands op.slots → Except Numeral.Fault (Instruction String)
  | nop, () => .ok .nop
  | hlt, () => .ok .hlt
  | ret, () => .ok .ret
  | ldi, (d, w, ()) => do return .ldi (← registerOf d) (UInt8.ofNat (← w.value))
  | ld, (d, w, ()) => do return .ld (← registerOf d) (directAddress (← w.value))
  | st, (s, w, ()) => do return .st (← registerOf s) (directAddress (← w.value))
  | ldir, (d, a, ()) => do return .ldir (← registerOf d) (← registerOf a)
  | stir, (a, s, ()) => do return .stir (← registerOf a) (← registerOf s)
  | ldirp, (d, p, ()) => do return .ldirp (← registerOf d) p
  | stirp, (p, s, ()) => do return .stirp p (← registerOf s)
  | mov, (d, s, ()) => do return .mov (← registerOf d) (← registerOf s)
  | binary op, (d, x, y, ()) => do
    return .binary op (← registerOf d) (← registerOf x) (← registerOf y)
  | not, (d, s, ()) => do return .not (← registerOf d) (← registerOf s)
  | addi, (d, w, ()) => do return .addi (← registerOf d) (UInt8.ofNat (← w.value))
  | addiw, (p, w, ()) => do return .addiw p (UInt16.ofNat (← w.value))
  | cpi, (s, w, ()) => do return .cpi (← registerOf s) (UInt8.ofNat (← w.value))
  | out, (s, ()) => do return .out (← registerOf s)
  | outp, (p, ()) => .ok (.outp p)
  | outa, (s, ()) => do return .outa (← registerOf s)
  | branch op, (name, ()) => .ok (.branch op name)

/-- The bytes of a string: its escapes are read off its UTF-8 form and have to give ASCII. -/
def Source.bodyBytesWith (names : CharacterNames) (body : List Char) : Except Fault (List UInt8) :=
  match Escape.decode names (body.flatMap String.utf8EncodeChar) with
  | .error e => .error (.escape e)
  | .ok codes =>
    match Ascii.encode codes with
    | .error e => .error (.ascii e)
    | .ok bytes => .ok bytes

/-- What stops the reading of a string: an escape or a character beyond ASCII. -/
theorem Source.bodyBytesWith_eq_error {names : CharacterNames} {body : List Char} {f : Fault}
    (h : bodyBytesWith names body = .error f) : (∃ m, f = .escape m) ∨ ∃ e, f = .ascii e := by
  rw [bodyBytesWith] at h
  split at h
  · cases h
    exact .inl ⟨_, rfl⟩
  · split at h
    · cases h
      exact .inr ⟨_, rfl⟩
    · cases h

def Source.bodyBytes (body : List Char) : Except Fault (List UInt8) := bodyBytesWith .latin body

/-- A no-operation takes no place in the code. -/
def Action.ofInstruction : Instruction String → Action
  | .nop => pad
  | i => emit i.placement i

/-- What statements do: the action of each, or the fault that keeps it from having one. -/
abbrev Source.Statement.Meaning := Statement → Except Fault Action

/-- The action of a statement, where strings may use the given names of characters. -/
def Source.Statement.actionWith (names : CharacterNames) : Statement.Meaning
  | label name => .ok (.define name)
  | data body =>
    match bodyBytesWith names body with
    | .error e => .error e
    | .ok bytes => .ok (.store .add bytes)
  | instruction op operands =>
    match op.instruction operands with
    | .error e => .error (.numeral e)
    | .ok i => .ok (.ofInstruction i)
  | unknown token => .ok (.complain token)

def Source.Statement.action : Statement.Meaning := actionWith .latin

theorem Source.Statement.action_data (body : List Char) :
    (data body).action =
      match bodyBytes body with
      | .error e => .error e
      | .ok bytes => .ok (.store .add bytes) := rfl

theorem Source.Statement.action_instruction (op : Opcode) (operands : Operands op.slots) :
    (instruction op operands).action =
      match op.instruction operands with
      | .error e => .error (.numeral e)
      | .ok i => .ok (.ofInstruction i) := rfl

/-- The references with the one that an instruction makes, if it is a branch. -/
def Instruction.refer (i : Instruction String) (offset : Nat) (references : Array Reference) :
    Array Reference :=
  match i.target? with
  | some label => references.push ⟨label, offset⟩
  | none => references

/-- Perform an action. A branch is noted before its bytes are placed, and data are reported
after all of theirs are. -/
def State.perform (s : State) (a : Action) : Outcome State :=
  match s, a with
  | ⟨image, text, code, data, labels, references⟩, .define name =>
    ⟨⟨image, text, code, data, labels.insert name code, references⟩,
      [.labelDefined name code], none⟩
  | ⟨image, text, code, data, labels, references⟩, .emit p i =>
    let placed := image.place p code i.draft
    ⟨⟨placed.image, text, placed.next, data, labels, i.refer code references⟩,
      [], placed.fault.map .image⟩
  | ⟨image, text, code, data, labels, references⟩, .pad =>
    ⟨⟨image.push 0, text, code, data, labels, references⟩, [], none⟩
  | ⟨image, text, code, data, labels, references⟩, .store p bytes =>
    let placed := image.place p data bytes
    ⟨⟨placed.image, text, code, placed.next, labels, references⟩,
      if placed.fault.isSome then [] else [.dataStored bytes], placed.fault.map .image⟩
  | s, .complain token => ⟨s, [.unknownToken token], none⟩

@[simp] theorem State.text_perform (s : State) (a : Action) : (s.perform a).state.text = s.text := by
  cases a <;> rfl

end ByteAsm
