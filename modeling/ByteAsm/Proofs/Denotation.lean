import ByteAsm.Proofs.Layout

/-! What the instructions of a text denote: the opcode of the mnemonic, and the numbers that the
operands write, each cut to the width of its field. -/
namespace ByteAsm

open Source Text

def Literal.number : Literal → Nat
  | hex digits => hexValue (digits.map Char.toNat)
  | decimal digits => Numeral.decimalValue digits

/-- The operands of an instruction as numbers, in the order in which they are written. -/
def Instruction.fields : Instruction UInt16 → List Nat
  | nop | hlt | ret => []
  | ldi r v | addi r v | cpi r v => [r, v.toNat]
  | ld r a | st r a => [r, a]
  | ldir rd ra => [rd, ra]
  | stir ra rs => [ra, rs]
  | ldirp r p => [r, p.index]
  | stirp p r => [p.index, r]
  | mov rd rs | not rd rs => [rd, rs]
  | binary _ rd rx ry => [rd, rx, ry]
  | addiw p v => [p.index, v.toNat]
  | out r | outa r => [r]
  | outp p => [p.index]
  | branch _ t => [t.toNat]

/-- Literals count modulo the range of their field: a byte, or fourteen or sixteen bits. -/
def Opcode.literalRange : Opcode → Nat
  | ld | st => 0x4000
  | addiw => 0x10000
  | _ => 0x100

namespace Source

/-- The number that an operand stands for. Registers count modulo four, and a name stands for the
address of its label. -/
def Slot.field? (range : Nat) (labels : String → Option Nat) : (s : Slot) → s.Value → Option Nat
  | .register, digits | .indirect, digits => some (Numeral.decimalValue digits % 4)
  | .pair, p | .indirectPair, p => some p.index
  | .literal, w => some (w.number % range)
  | .name, label => labels label

def Operands.fields? (range : Nat) (labels : String → Option Nat) :
    {slots : List Slot} → Operands slots → Option (List Nat)
  | [], () => some []
  | s :: _, (v, vs) =>
    (s.field? range labels v).bind fun n => (Operands.fields? range labels vs).map (n :: ·)

namespace Statement

/-- A statement denotes an instruction that has its opcode and the numbers of its operands. -/
def Denotes (labels : String → Option Nat) : Statement → Instruction UInt16 → Prop
  | instruction op operands, i =>
    i.opcode = op ∧ operands.fields? op.literalRange labels = some i.fields
  | _, _ => False

def isNop : Statement → Bool
  | instruction op _ => op = .nop
  | _ => false

def isCode : Statement → Bool
  | instruction op _ => op ≠ .nop
  | _ => false

end Statement

theorem bind_eq_ok_iff {ε α β : Type} {x : Except ε α} {f : α → Except ε β} {b : β} :
    (x >>= f) = .ok b ↔ ∃ a, x = .ok a ∧ f a = .ok b := by
  cases x with
  | error e => simp [bind, Except.bind]
  | ok a => simp [bind, Except.bind]

theorem registerOf_eq_ok {digits : List Char} {r : Register} (h : registerOf digits = .ok r) :
    r.val = Numeral.decimalValue digits % 4 := by
  unfold registerOf at h
  cases hd : Numeral.readDecimal digits with
  | error e => rw [hd] at h; cases h
  | ok n =>
    rw [hd] at h
    cases h
    rw [(Numeral.readDecimal_eq_ok_iff.1 hd).2]
    rfl

end Source

theorem Literal.value_eq_ok {w : Literal} {n : Nat} (h : w.value = .ok n) : n = w.number := by
  cases w with
  | hex digits =>
    cases h
    rfl
  | decimal digits =>
    simp only [Literal.value] at h
    cases hd : Numeral.readDecimal digits with
    | error e => rw [hd] at h; cases h
    | ok m =>
      rw [hd] at h
      simp only at h
      split at h
      · cases h
      · cases h
        exact (Numeral.readDecimal_eq_ok_iff.1 hd).2.symm

theorem Opcode.denotes_of_instruction {op : Opcode} {operands : Operands op.slots}
    {i : Instruction String} (h : op.instruction operands = .ok i) {labels : String → Option Nat}
    {target : String → UInt16}
    (ht : ∀ name, i.target? = some name → labels name = some (target name).toNat) :
    (Statement.instruction op operands).Denotes labels (i.map target) := by
  cases op with
  | nop | hlt | ret =>
    cases h
    exact ⟨rfl, rfl⟩
  | ldi | addi | cpi | ld | st =>
    obtain ⟨d, w, ⟨⟩⟩ := operands
    simp only [Opcode.instruction, bind_eq_ok_iff] at h
    obtain ⟨r, hr, n, hn, h⟩ := h
    cases h
    refine ⟨rfl, ?_⟩
    simp [Instruction.map, Instruction.fields, Operands.fields?, Slot.field?, literalRange,
      registerOf_eq_ok hr, Literal.value_eq_ok hn, directAddress, Fin.ofNat]
  | addiw =>
    obtain ⟨p, w, ⟨⟩⟩ := operands
    simp only [Opcode.instruction, bind_eq_ok_iff] at h
    obtain ⟨n, hn, h⟩ := h
    cases h
    refine ⟨rfl, ?_⟩
    simp [Instruction.map, Instruction.fields, Operands.fields?, Slot.field?, literalRange,
      Literal.value_eq_ok hn]
  | ldir | stir | mov | not =>
    obtain ⟨a, b, ⟨⟩⟩ := operands
    simp only [Opcode.instruction, bind_eq_ok_iff] at h
    obtain ⟨r, hr, q, hq, h⟩ := h
    cases h
    refine ⟨rfl, ?_⟩
    simp [Instruction.map, Instruction.fields, Operands.fields?, Slot.field?,
      registerOf_eq_ok hr, registerOf_eq_ok hq]
  | ldirp | stirp =>
    obtain ⟨a, b, ⟨⟩⟩ := operands
    simp only [Opcode.instruction, bind_eq_ok_iff] at h
    obtain ⟨r, hr, h⟩ := h
    cases h
    refine ⟨rfl, ?_⟩
    simp [Instruction.map, Instruction.fields, Operands.fields?, Slot.field?, registerOf_eq_ok hr]
  | binary op =>
    obtain ⟨a, b, c, ⟨⟩⟩ := operands
    simp only [Opcode.instruction, bind_eq_ok_iff] at h
    obtain ⟨r, hr, q, hq, p, hp, h⟩ := h
    cases h
    refine ⟨rfl, ?_⟩
    simp [Instruction.map, Instruction.fields, Operands.fields?, Slot.field?,
      registerOf_eq_ok hr, registerOf_eq_ok hq, registerOf_eq_ok hp]
  | out | outa =>
    obtain ⟨a, ⟨⟩⟩ := operands
    simp only [Opcode.instruction, bind_eq_ok_iff] at h
    obtain ⟨r, hr, h⟩ := h
    cases h
    refine ⟨rfl, ?_⟩
    simp [Instruction.map, Instruction.fields, Operands.fields?, Slot.field?, registerOf_eq_ok hr]
  | outp =>
    obtain ⟨p, ⟨⟩⟩ := operands
    cases h
    exact ⟨rfl, rfl⟩
  | branch op =>
    obtain ⟨label, ⟨⟩⟩ := operands
    cases h
    refine ⟨rfl, ?_⟩
    simp [Instruction.map, Instruction.fields, Operands.fields?, Slot.field?, ht label rfl]

theorem Opcode.opcode_of_instruction {op : Opcode} {operands : Operands op.slots}
    {i : Instruction String} (h : op.instruction operands = .ok i) : i.opcode = op := by
  have hd := @denotes_of_instruction op operands i h (fun _ => some 0) (fun _ => 0) fun _ _ => rfl
  rw [← hd.1, Instruction.opcode_map]

theorem Action.ofInstruction_cases (i : Instruction String) :
    i.opcode = .nop ∧ ofInstruction i = pad ∨
      i.opcode ≠ .nop ∧ ofInstruction i = emit i.placement i := by
  cases i with
  | nop => exact .inl ⟨rfl, rfl⟩
  | _ => exact .inr ⟨by simp [Instruction.opcode], rfl⟩

namespace Source.Statement

variable {statement : Statement} {a : Action}

/-- The actions that statements have, one kind for each kind of statement and one for the no-operation. -/
inductive Acts : Statement → Action → Prop
  | label (name : String) : Acts (.label name) (.define name)
  | data {body : List Char} {bytes : List UInt8} (hbody : bodyBytes body = .ok bytes) :
      Acts (.data body) (.store .add bytes)
  | nop : Acts (.instruction .nop ()) .pad
  | instruction {op : Opcode} {operands : Operands op.slots} {i : Instruction String}
      (hop : op ≠ .nop) (hi : op.instruction operands = .ok i) :
      Acts (.instruction op operands) (.emit i.placement i)
  | unknown (token : List Char) : Acts (.unknown token) (.complain token)

theorem acts_of_action (h : statement.action = .ok a) : Acts statement a := by
  cases statement with
  | label name =>
    cases h
    exact .label name
  | unknown token =>
    cases h
    exact .unknown token
  | data body =>
    rw [action_data] at h
    split at h
    · cases h
    · rename_i bytes hbody
      cases h
      exact .data hbody
  | instruction op operands =>
    rw [action_instruction] at h
    split at h
    · cases h
    · rename_i i hi
      cases h
      obtain rfl := Opcode.opcode_of_instruction hi
      rcases Action.ofInstruction_cases i with ⟨hnop, ha⟩ | ⟨hnop, ha⟩
      · cases i with
        | nop => exact .nop
        | _ => cases hnop
      · rw [ha]
        exact .instruction hnop hi

/-- A statement acts as an instruction exactly if it is one that puts code. -/
theorem instruction?_of_action (h : statement.action = .ok a) (addr : Nat) :
    statement.isCode = false ∧ Layout.instruction? (addr, a) = none ∨
    statement.isCode = true ∧ ∃ i, Layout.instruction? (addr, a) = some (addr, i) ∧
      ∀ (labels : String → Option Nat) (target : String → UInt16),
        (∀ name, i.target? = some name → labels name = some (target name).toNat) →
        statement.Denotes labels (i.map target) := by
  cases acts_of_action h with
  | label | data | nop | unknown => exact .inl ⟨rfl, rfl⟩
  | @instruction op operands i hop hi =>
    refine .inr ⟨by simp [isCode, hop], i, rfl, ?_⟩
    intro labels target ht
    exact Opcode.denotes_of_instruction hi ht

theorem isPad_of_action (h : statement.action = .ok a) : a.isPad = statement.isNop := by
  cases acts_of_action h with
  | label | data | nop | unknown => rfl
  | instruction hop hi => simp [Action.isPad, isNop, hop]

end Source.Statement

namespace Layout

theorem pads_of_actions {list : List Statement} {as : List Action} (h : HasActions list as) :
    pads as = list.countP Statement.isNop := by
  induction h with
  | nil => rfl
  | @cons statement a list as ha _ ih =>
    rw [pads] at ih ⊢
    rw [List.countP_cons, List.countP_cons, ih, Statement.isPad_of_action ha]

theorem data_eq_nil_of_actions {list : List Statement} {as : List Action}
    (has : HasActions list as) (h : ∀ body, .data body ∉ list) : data as = [] := by
  induction has with
  | nil => rfl
  | @cons statement a list as ha _ ih =>
    have hrest := ih fun body hmem => h body (List.mem_cons_of_mem statement hmem)
    cases Statement.acts_of_action ha with
    | data => exact absurd List.mem_cons_self (h _)
    | label | nop | instruction | unknown => simpa [Action.data] using hrest

/-- The instructions that are put into the code are those that the statements denote. -/
theorem denotes_located {statements : List Statement} {as : List Action} {addr : Nat}
    {labels : String → Option Nat} {target : String → UInt16}
    (has : HasActions statements as)
    (ht : ∀ p ∈ (located addr as).filterMap instruction?, ∀ name, p.2.target? = some name →
      labels name = some (target name).toNat) :
    List.Forall₂ (fun statement p => statement.Denotes labels p.2)
      (statements.filter Statement.isCode)
      (((located addr as).filterMap instruction?).map fun p => (p.1, p.2.map target)) := by
  induction has generalizing addr with
  | nil => exact .nil
  | @cons statement a statements as ha has ih =>
    simp only [located] at ht ⊢
    rcases Statement.instruction?_of_action ha addr with ⟨hcode, hi⟩ | ⟨hcode, i, hi, hden⟩
    · rw [List.filterMap_cons_none hi] at ht ⊢
      rw [List.filter_cons_of_neg (by simp [hcode])]
      exact ih ht
    · rw [List.filterMap_cons_some hi] at ht ⊢
      rw [List.filter_cons_of_pos hcode, List.map_cons]
      refine .cons (hden labels target (ht _ List.mem_cons_self)) (ih ?_)
      intro p hp
      exact ht p (List.mem_cons_of_mem _ hp)

end Layout

end ByteAsm
