import ByteAsm.Proofs.Correctness
import ByteAsm.Proofs.TokenEnd

/-! Numbers as operands, of any length and in any script. An instruction holds the positional value of its
number, cut to the width of the field, so that spellings of one number are interchangeable and a hexadecimal
number counts only with its last digits. -/
namespace ByteAsm

open Source Text

namespace Numeral

theorem foldl_digits {α : Type} (b : Nat) (f : α → Nat) (digits : List α) (n : Nat) :
    digits.foldl (fun n d => b * n + f d) n =
      Nat.ofDigits b (digits.map f).reverse + b ^ digits.length * n := by
  induction digits generalizing n with
  | nil => simp
  | cons d digits ih =>
    rw [List.foldl_cons, ih, List.map_cons, List.reverse_cons, Nat.ofDigits_append, Nat.ofDigits_singleton,
      List.length_reverse, List.length_map, List.length_cons, pow_succ]
    ring

theorem ofDigits_eq_zero_iff {b : Nat} (hb : b ≠ 0) {digits : List Nat} :
    Nat.ofDigits b digits = 0 ↔ ∀ d ∈ digits, d = 0 := by
  refine ⟨Nat.digits_zero_of_eq_zero hb, fun h => ?_⟩
  rw [List.eq_replicate_of_mem h]
  exact Nat.ofDigits_replicate_zero

def decimalDigit (c : Char) : Nat := (digitValue? c).getD 0

def hexDigit (c : Char) : Nat := (hexDigitValue? c.toNat).getD 0

theorem decimalValue_eq (digits : List Char) :
    decimalValue digits = Nat.ofDigits 10 (digits.map decimalDigit).reverse :=
  (foldl_digits 10 decimalDigit digits 0).trans (by simp)

theorem hexValue_eq (digits : List Char) :
    hexValue (digits.map Char.toNat) = Nat.ofDigits 16 (digits.map hexDigit).reverse := by
  rw [hexValue, List.foldl_map]
  exact (foldl_digits 16 hexDigit digits 0).trans (by simp)

theorem hexDigit_lt (c : Char) : hexDigit c < 16 := by
  simp only [hexDigit, hexDigitValue?]
  split_ifs <;> simp only [Option.getD_some, Option.getD_none] <;> omega

theorem hex_mod_of_rtake {digits digits' : List Char} {k : Nat} (h : digits.rtake k = digits'.rtake k) :
    Nat.ofDigits 16 (digits.map hexDigit).reverse % 16 ^ k =
      Nat.ofDigits 16 (digits'.map hexDigit).reverse % 16 ^ k := by
  have hmod : ∀ digits : List Char, Nat.ofDigits 16 (digits.map hexDigit).reverse % 16 ^ k =
      Nat.ofDigits 16 ((digits.rtake k).map hexDigit).reverse := by
    intro digits
    have hlt : ∀ d ∈ (digits.map hexDigit).reverse, d < 16 := by
      intro d hd
      obtain ⟨c, _, rfl⟩ := List.mem_map.1 (List.mem_reverse.1 hd)
      exact hexDigit_lt c
    rw [Nat.ofDigits_mod_pow_eq_ofDigits_take k (by decide) _ hlt, List.rtake_eq_reverse_take_reverse,
      ← List.map_reverse, ← List.map_reverse, List.reverse_reverse, List.map_take]
  rw [hmod, hmod, h]

end Numeral

namespace Source

open Numeral

def numberValue : List Char → Nat
  | '0' :: 'x' :: digits => Nat.ofDigits 16 (digits.map hexDigit).reverse
  | digits => Nat.ofDigits 10 (digits.map decimalDigit).reverse

/-- A decimal number that is not read: it has too many digits, or it starts with a zero and has a digit that is
not zero. -/
def RefusedDecimal (number : List Char) : Prop :=
  4300 < number.length ∨ 2 ≤ number.length ∧ (∃ c ∈ number.head?, digitValue? c = some 0) ∧
    ∃ c ∈ number, digitValue? c ≠ some 0

/-- A number is refused for its decimal digits, and a register for the length of its number. -/
def Refused (op : Opcode) (register number : List Char) : Prop :=
  op ≠ .addiw ∧ 4300 < register.length ∨ ¬ ['0', 'x'] <+: number ∧ RefusedDecimal number

def registerField (op : Opcode) (register : List Char) : Nat :=
  if op = .addiw then if register = ['0', '1'] then 0 else 1
  else Nat.ofDigits 10 (register.map decimalDigit).reverse % 4

theorem not_hex_of_digits {digits : List Char} (h : Digits digits) : ¬ ['0', 'x'] <+: digits := by
  rintro ⟨tail, rfl⟩
  exact absurd (h.2 'x' (by simp)) (by decide)

theorem numberValue_of_not_hex {digits : List Char} (h : ¬ ['0', 'x'] <+: digits) :
    numberValue digits = decimalValue digits := by
  rw [decimalValue_eq]
  unfold numberValue
  split
  · exact absurd ⟨_, rfl⟩ h
  · rfl

theorem eq_hex_of_matches {w : Literal} {digits : List Char}
    (h : LiteralMatches w ('0' :: 'x' :: digits)) : w = .hex digits := by
  cases w with
  | hex other =>
    obtain ⟨_, _, he⟩ := h
    cases he
    rfl
  | decimal other =>
    obtain ⟨hdigits, rfl⟩ := h
    exact absurd ⟨digits, rfl⟩ (not_hex_of_digits hdigits)

/-- A literal that is read writes the positional value of its text. -/
theorem number_eq_numberValue {w : Literal} {text : List Char} (h : LiteralMatches w text) :
    w.number = numberValue text := by
  cases w with
  | hex digits =>
    obtain ⟨_, _, rfl⟩ := h
    exact hexValue_eq digits
  | decimal digits =>
    obtain ⟨hdigits, rfl⟩ := h
    exact (numberValue_of_not_hex (not_hex_of_digits hdigits)).symm

/-- Digits of any script have the value zero exactly if each of them is a zero. -/
theorem decimalValue_eq_zero_iff {digits : List Char} (h : Digits digits) :
    decimalValue digits = 0 ↔ ∀ c ∈ digits, digitValue? c = some 0 := by
  rw [decimalValue_eq, ofDigits_eq_zero_iff (by decide)]
  simp only [List.mem_reverse, List.forall_mem_map]
  refine forall₂_congr fun c hc => ?_
  obtain ⟨n, hn⟩ := Option.isSome_iff_exists.1 (h.2 c hc)
  simp [decimalDigit, hn]

theorem startsWithZero_iff {digits : List Char} :
    startsWithZero digits = true ↔ ∃ c ∈ digits.head?, digitValue? c = some 0 := by
  simp [startsWithZero, Option.bind_eq_some_iff]

theorem value_decimal_error_iff (digits : List Char) :
    (∃ e, (Literal.decimal digits).value = .error e) ↔
      4300 < digits.length ∨ startsWithZero digits = true ∧ decimalValue digits ≠ 0 := by
  by_cases hlong : 4300 < digits.length
  · have hread : readDecimal digits = .error (.tooLong digits.length) :=
      readDecimal_eq_error_iff.2 ⟨hlong, rfl⟩
    simp [Literal.value, hread, hlong]
  · have hread : readDecimal digits = .ok (decimalValue digits) :=
      readDecimal_eq_ok_iff.2 ⟨Nat.not_lt.1 hlong, rfl⟩
    by_cases hzero : startsWithZero digits = true ∧ decimalValue digits ≠ 0
    · simp [Literal.value, hread, hlong, hzero]
    · simp only [Literal.value, hread, hlong, false_or, hzero, iff_false]
      rintro ⟨e, he⟩
      cases he

theorem refusedDecimal_iff {digits : List Char} (h : Digits digits) :
    RefusedDecimal digits ↔
      4300 < digits.length ∨ startsWithZero digits = true ∧ decimalValue digits ≠ 0 := by
  have hzero : decimalValue digits ≠ 0 ↔ ∃ c ∈ digits, digitValue? c ≠ some 0 := by
    rw [Ne, decimalValue_eq_zero_iff h]
    simp
  rw [RefusedDecimal, startsWithZero_iff, hzero]
  refine or_congr_right (and_iff_right_of_imp ?_)
  rintro ⟨⟨c, hc, hfirst⟩, d, hd, hne⟩
  cases digits with
  | nil => cases hd
  | cons b digits =>
    cases hc
    have htail : d ∈ digits := (List.mem_cons.1 hd).resolve_left fun he => hne (he ▸ hfirst)
    have hpos := List.length_pos_of_mem htail
    simp only [List.length_cons]
    omega

theorem value_error_iff {w : Literal} {text : List Char} (h : LiteralMatches w text) :
    (∃ e, w.value = .error e) ↔ ¬ ['0', 'x'] <+: text ∧ RefusedDecimal text := by
  cases w with
  | hex digits =>
    obtain ⟨_, _, rfl⟩ := h
    simp [Literal.value]
  | decimal digits =>
    obtain ⟨hdigits, rfl⟩ := h
    rw [value_decimal_error_iff, refusedDecimal_iff hdigits]
    exact (and_iff_right (not_hex_of_digits hdigits)).symm

end Source

namespace Opcode

def numbered : List Opcode := [ldi, ld, st, cpi, addi, addiw]

/-- The number of hexadecimal digits that cover the field of a number. -/
def hexWidth : Opcode → Nat
  | ld | st | addiw => 4
  | _ => 2

/-- The instruction with the given numbers, each cut to the width of its field. -/
def withNumber {τ : Type} (op : Opcode) (r n : Nat) : Instruction τ :=
  match op with
  | ldi => .ldi (.ofNat r) (UInt8.ofNat n)
  | ld => .ld (.ofNat r) (directAddress n)
  | st => .st (.ofNat r) (directAddress n)
  | cpi => .cpi (.ofNat r) (UInt8.ofNat n)
  | addi => .addi (.ofNat r) (UInt8.ofNat n)
  | addiw => .addiw (if r % 4 = 0 then .r01 else .r23) (UInt16.ofNat n)
  | _ => .nop

def registerNumber (op : Opcode) (register : List Char) : Except Numeral.Fault Nat :=
  if op = addiw then .ok (if register = ['0', '1'] then 0 else 1) else Numeral.readDecimal register

def readNumber (op : Opcode) (register : List Char) (w : Literal) :
    Except Numeral.Fault (Instruction String) := do
  let r ← op.registerNumber register
  let n ← w.value
  return op.withNumber r n

variable {op : Opcode}

theorem literalRange_dvd (op : Opcode) : op.literalRange ∣ 16 ^ op.hexWidth := by
  cases op with
  | ld | st => exact ⟨4, rfl⟩
  | _ => exact ⟨1, rfl⟩

theorem map_withNumber {τ υ : Type} (f : τ → υ) (r n : Nat) :
    (op.withNumber r n).map f = op.withNumber r n := by
  cases op <;> rfl

theorem target?_withNumber {τ : Type} (r n : Nat) : (op.withNumber r n : Instruction τ).target? = none := by
  cases op <;> rfl

theorem opcode_withNumber (hop : op ∈ numbered) {τ : Type} (r n : Nat) :
    (op.withNumber r n : Instruction τ).opcode = op := by
  cases op with
  | ldi | ld | st | cpi | addi | addiw => rfl
  | _ => simp [numbered] at hop

theorem fields_withNumber (hop : op ∈ numbered) {r n : Nat} (hr : op = addiw → r < 2) :
    (op.withNumber r n).fields = [r % 4, n % op.literalRange] := by
  cases op with
  | ldi | cpi | addi | ld | st =>
    simp [withNumber, Instruction.fields, literalRange, Register.ofNat, directAddress, Fin.ofNat]
  | addiw =>
    have hpair : r = 0 ∨ r = 1 := by have := hr rfl; omega
    rcases hpair with rfl | rfl <;> simp [withNumber, Instruction.fields, literalRange, RegisterPair.index]
  | _ => simp [numbered] at hop

/-- Numbers that are the same modulo the widths of their fields give the same instruction. -/
theorem withNumber_congr {τ : Type} {r r' n n' : Nat} (hr : r % 4 = r' % 4)
    (hn : n % op.literalRange = n' % op.literalRange) :
    (op.withNumber r n : Instruction τ) = op.withNumber r' n' := by
  have hregister : Register.ofNat r = Register.ofNat r' := Fin.ext hr
  cases op with
  | ldi | cpi | addi =>
    have hbyte : UInt8.ofNat n = UInt8.ofNat n' := UInt8.toNat_inj.1 (by simpa [literalRange] using hn)
    simp only [withNumber, hregister, hbyte]
  | ld | st =>
    have haddress : directAddress n = directAddress n' := Fin.ext hn
    simp only [withNumber, hregister, haddress]
  | addiw =>
    have hword : UInt16.ofNat n = UInt16.ofNat n' := UInt16.toNat_inj.1 (by simpa [literalRange] using hn)
    simp only [withNumber, hr, hword]
  | _ => rfl

theorem registerNumber_error_iff {register : List Char} :
    (∃ e, op.registerNumber register = .error e) ↔ op ≠ addiw ∧ 4300 < register.length := by
  by_cases hop : op = addiw
  · simp [registerNumber, hop]
  · simp [registerNumber, hop, Numeral.readDecimal_eq_error_iff, Numeral.maxDigits]

theorem registerNumber_ok {register : List Char} {r : Nat} (h : op.registerNumber register = .ok r) :
    r % 4 = registerField op register ∧ (op = addiw → r < 2) := by
  unfold registerNumber at h
  unfold registerField
  split at h
  · rename_i hop
    cases h
    split_ifs <;> simp
  · rename_i hop
    rw [if_neg hop, ← Numeral.decimalValue_eq, (Numeral.readDecimal_eq_ok_iff.1 h).2]
    exact ⟨rfl, fun he => absurd he hop⟩

theorem readNumber_cases {register number : List Char} {w : Literal} (hw : LiteralMatches w number) :
    (Refused op register number ∧ ∃ e, op.readNumber register w = .error e) ∨
    ¬ Refused op register number ∧ ∃ r, r % 4 = registerField op register ∧ (op = addiw → r < 2) ∧
      op.readNumber register w = .ok (op.withNumber r (numberValue number)) := by
  have hregister := @registerNumber_error_iff op register
  have hvalue := value_error_iff hw
  cases hr : op.registerNumber register with
  | error e =>
    refine .inl ⟨.inl (hregister.1 ⟨e, hr⟩), e, ?_⟩
    simp only [readNumber, hr]
    rfl
  | ok r =>
    cases hn : w.value with
    | error e =>
      refine .inl ⟨.inr (hvalue.1 ⟨e, hn⟩), e, ?_⟩
      simp only [readNumber, hr, hn]
      rfl
    | ok n =>
      obtain ⟨hfield, hpair⟩ := registerNumber_ok hr
      refine .inr ⟨?_, r, hfield, hpair, ?_⟩
      · rintro (hlong | hbad)
        · obtain ⟨e, he⟩ := hregister.2 hlong
          rw [hr] at he
          cases he
        · obtain ⟨e, he⟩ := hvalue.2 hbad
          rw [hn] at he
          cases he
      · simp only [readNumber, hr, hn, ← number_eq_numberValue hw, ← Literal.value_eq_ok hn]
        rfl

theorem readNumber_hex_congr {digits digits' : List Char}
    (h : digits.rtake op.hexWidth = digits'.rtake op.hexWidth) (register : List Char) :
    op.readNumber register (.hex digits) = op.readNumber register (.hex digits') := by
  have hmod : hexValue (digits.map Char.toNat) % op.literalRange =
      hexValue (digits'.map Char.toNat) % op.literalRange := by
    rw [Numeral.hexValue_eq, Numeral.hexValue_eq]
    exact Nat.ModEq.of_dvd op.literalRange_dvd (Numeral.hex_mod_of_rtake h)
  unfold readNumber
  congr 1
  funext r
  exact congrArg Except.ok (withNumber_congr rfl hmod)

theorem instruction_of_captured (hop : op ∈ numbered) {operands : Operands op.slots}
    {register number front : List Char} (hcaptured : Operands.captured op.slots operands = [register, number])
    (hmatch : Operands.Matches op.slots SpaceRun operands front) :
    ∃ w : Literal, LiteralMatches w number ∧ op.instruction operands = op.readNumber register w := by
  have hliteral : ∀ {w : Literal} {text}, LiteralMatches w text →
      LiteralMatches w (Slot.literal.captured w) := by
    intro w text h
    cases w with
    | hex digits => exact ⟨h.1, h.2.1, rfl⟩
    | decimal digits => exact ⟨h.1, rfl⟩
  cases op with
  | ldi | ld | st | cpi | addi =>
    obtain ⟨digits, w, ⟨⟩⟩ := operands
    obtain ⟨_, _, _, _, _, _, _, _, _, _, _, hw, _⟩ := hmatch
    cases hcaptured
    refine ⟨w, hliteral hw, ?_⟩
    simp only [Opcode.instruction, registerOf, readNumber, registerNumber, reduceCtorEq, if_false,
      Slot.captured]
    cases Numeral.readDecimal digits <;> rfl
  | addiw =>
    obtain ⟨p, w, ⟨⟩⟩ := operands
    obtain ⟨_, _, _, _, _, _, _, _, _, _, _, hw, _⟩ := hmatch
    cases hcaptured
    refine ⟨w, hliteral hw, ?_⟩
    cases p <;> rfl
  | _ => simp [numbered] at hop

end Opcode

namespace State

/-- A step on a text puts an instruction at the next code address, where the image is free, goes on with the
rest of the text and changes nothing else. -/
def Places (text rest : List Char) (i : Instruction UInt16) : Prop :=
  ∀ s : State, (∀ k < i.encode.length, s.image[s.code + k]? = some 0) →
    (s.withText text).step.fault = none ∧ (s.withText text).step.notices = [] ∧
    (s.withText text).step.state = { s with
      image := (s.withText text).step.state.image
      text := some rest
      code := s.code + i.encode.length } ∧
    s.image.Holds (s.withText text).step.state.image s.code i.encode

/-- A step on either text has the same outcome, up to the text that is left. -/
def StepsAlike (text text' : List Char) : Prop :=
  ∀ s : State, (s.withText text).step.retext none = (s.withText text').step.retext none

variable {op : Opcode} {text front register number : List Char}

theorem step_of_takes (hop : op ∈ Opcode.numbered)
    (h : Takes (skipBlanks text) front (.instruction op) [register, number]) :
    ∃ w operands rest, LiteralMatches w number ∧ op.instruction operands = op.readNumber register w ∧
      skipBlanks text = front ++ rest ∧
      ∀ s : State, (s.withText text).step = (s.execute (.instruction op operands)).retext (some rest) := by
  obtain ⟨statement, rest, hread, htext, hform, hcaptured⟩ := h
  cases statement with
  | instruction other operands =>
    cases hform
    obtain ⟨_, hinstruction⟩ := read?_instruction_iff.1 hread
    obtain ⟨_, _, _, ⟨inner, hinner, _⟩, _⟩ := readInstruction?_iff.1 hinstruction
    obtain ⟨w, hw, he⟩ := Opcode.instruction_of_captured hop hcaptured hinner
    exact ⟨w, operands, rest, hw, he, htext, fun s => step_of_read? hread⟩
  | label | data | unknown => cases hform

/-- Steps on instructions have the same outcome if the operands are read alike. -/
theorem stepsAlike_of_instruction_eq {text' rest rest' : List Char} {operands operands' : Operands op.slots}
    (hstep : ∀ s : State,
      (s.withText text).step = (s.execute (.instruction op operands)).retext (some rest))
    (hstep' : ∀ s : State,
      (s.withText text').step = (s.execute (.instruction op operands')).retext (some rest'))
    (h : op.instruction operands = op.instruction operands') : StepsAlike text text' := by
  intro s
  have hsame : s.execute (.instruction op operands) = s.execute (.instruction op operands') := by
    simp only [execute, executeWith, Statement.action_instruction, h]
  rw [hstep, hstep', hsame]
  rfl

theorem execute_instruction_error {operands : Operands op.slots} {e : Numeral.Fault}
    (h : op.instruction operands = .error e) (s : State) :
    s.execute (.instruction op operands) = ⟨s, [], some (.numeral e)⟩ :=
  execute_of_error (by rw [Statement.action_instruction, h]) s

theorem execute_withNumber (hop : op ∈ Opcode.numbered) {operands : Operands op.slots} {r n : Nat}
    (h : op.instruction operands = .ok (op.withNumber r n)) (s : State) :
    ∃ p, s.execute (.instruction op operands) =
      ⟨{ s with
          image := (s.image.place p s.code (op.withNumber r n : Instruction UInt16).encode).image
          code := (s.image.place p s.code (op.withNumber r n : Instruction UInt16).encode).next },
        [], (s.image.place p s.code (op.withNumber r n : Instruction UInt16).encode).fault.map .image⟩ := by
  have hemit : Action.ofInstruction (op.withNumber r n) =
      .emit (op.withNumber r n : Instruction String).placement (op.withNumber r n) := by
    rcases Action.ofInstruction_cases (op.withNumber r n) with ⟨hnop, _⟩ | ⟨_, ha⟩
    · rw [Opcode.opcode_withNumber hop] at hnop
      rw [hnop] at hop
      simp [Opcode.numbered] at hop
    · exact ha
  refine ⟨(op.withNumber r n : Instruction String).placement, ?_⟩
  have haction : (Statement.instruction op operands).action =
      .ok (.emit (op.withNumber r n : Instruction String).placement (op.withNumber r n)) := by
    rw [Statement.action_instruction, h, ← hemit]
  rw [execute_of_ok haction, perform_emit, Instruction.draft, Opcode.map_withNumber, Instruction.refer,
    Opcode.target?_withNumber]

section Takes

variable {text' front' register' number' : List Char} (hop : op ∈ Opcode.numbered)
  (h : Takes (skipBlanks text) front (.instruction op) [register, number])
  (h' : Takes (skipBlanks text') front' (.instruction op) [register', number'])

include hop h

theorem fault_numeral_iff (s : State) :
    (∃ e, (s.withText text).step.fault = some (.numeral e)) ↔ Refused op register number := by
  obtain ⟨w, operands, rest, hw, hread, _, hstep⟩ := step_of_takes hop h
  rw [hstep]
  rcases @Opcode.readNumber_cases op register number w hw with ⟨hbad, e, he⟩ | ⟨hgood, r, _, _, he⟩
  · rw [execute_instruction_error (hread.trans he)]
    exact ⟨fun _ => hbad, fun _ => ⟨e, rfl⟩⟩
  · obtain ⟨p, hp⟩ := execute_withNumber hop (hread.trans he) s
    rw [hp]
    refine ⟨?_, fun hbad => absurd hbad hgood⟩
    rintro ⟨e, hfault⟩
    obtain ⟨_, _, hf⟩ := Option.map_eq_some_iff.1 hfault
    cases hf

theorem exists_withNumber (hgood : ¬ Refused op register number) :
    ∃ r operands rest, r % 4 = registerField op register ∧ (op = .addiw → r < 2) ∧
      op.instruction operands = .ok (op.withNumber r (numberValue number)) ∧
      skipBlanks text = front ++ rest ∧
      ∀ s : State, (s.withText text).step = (s.execute (.instruction op operands)).retext (some rest) := by
  obtain ⟨w, operands, rest, hw, hread, htext, hstep⟩ := step_of_takes hop h
  rcases @Opcode.readNumber_cases op register number w hw with ⟨hbad, _⟩ | ⟨_, r, hr, hpair, he⟩
  · exact absurd hbad hgood
  · exact ⟨r, operands, rest, hr, hpair, hread.trans he, htext, hstep⟩

theorem places_number (hgood : ¬ Refused op register number) :
    ∃ (i : Instruction UInt16) (rest : List Char), i.opcode = op ∧
      i.fields = [registerField op register, numberValue number % op.literalRange] ∧
      skipBlanks text = front ++ rest ∧ Places text rest i := by
  obtain ⟨r, operands, rest, hr, hpair, hread, htext, hstep⟩ := exists_withNumber hop h hgood
  refine ⟨op.withNumber r (numberValue number), rest, Opcode.opcode_withNumber hop _ _, ?_, htext, ?_⟩
  · rw [Opcode.fields_withNumber hop hpair, hr]
  · intro s hroom
    obtain ⟨p, hp⟩ := execute_withNumber hop hread s
    obtain ⟨hf, hnext, hholds⟩ := Image.place_on_zeros p hroom
    rw [hstep, hp]
    refine ⟨by simp [Outcome.retext, hf], rfl, ?_, hholds⟩
    simp only [Outcome.retext, hnext]

include h'

theorem stepsAlike_of_numberValue_eq (hgood : ¬ Refused op register number)
    (hgood' : ¬ Refused op register' number')
    (hregister : registerField op register = registerField op register')
    (hnumber : numberValue number = numberValue number') : StepsAlike text text' := by
  obtain ⟨r, operands, rest, hr, _, hread, _, hstep⟩ := exists_withNumber hop h hgood
  obtain ⟨r', operands', rest', hr', _, hread', _, hstep'⟩ := exists_withNumber hop h' hgood'
  refine stepsAlike_of_instruction_eq hstep hstep' ?_
  rw [hread, hread', hnumber, Opcode.withNumber_congr (hr.trans (hregister.trans hr'.symm)) rfl]

theorem stepsAlike_of_rtake_eq {digits digits' : List Char} (hn : number = '0' :: 'x' :: digits)
    (hn' : number' = '0' :: 'x' :: digits') (hregister : register = register')
    (hlast : digits.rtake op.hexWidth = digits'.rtake op.hexWidth) : StepsAlike text text' := by
  obtain ⟨w, operands, rest, hw, hread, _, hstep⟩ := step_of_takes hop h
  obtain ⟨w', operands', rest', hw', hread', _, hstep'⟩ := step_of_takes hop h'
  rw [hn] at hw
  rw [hn'] at hw'
  obtain rfl := eq_hex_of_matches hw
  obtain rfl := eq_hex_of_matches hw'
  refine stepsAlike_of_instruction_eq hstep hstep' ?_
  rw [hread, hread', hregister, Opcode.readNumber_hex_congr hlast]

end Takes

/-- Numbers as operands. An instruction is refused exactly for too many decimal digits or for a zero in front of
a decimal number other than zero. Otherwise its fields are the positional values of its operands, cut to their
widths, and it puts its code at the next free addresses. So spellings of the same numbers have the same effect,
and of a hexadecimal number only the last digits count. -/
theorem step_number_operand (hop : op ∈ Opcode.numbered)
    (h : Takes (skipBlanks text) front (.instruction op) [register, number]) :
    (∀ s : State,
      (∃ e, (s.withText text).step.fault = some (.numeral e)) ↔ Refused op register number) ∧
    (¬ Refused op register number → ∃ (i : Instruction UInt16) (rest : List Char),
      i.opcode = op ∧ i.fields = [registerField op register, numberValue number % op.literalRange] ∧
      Instruction.decode? i.encode = some (i, []) ∧ skipBlanks text = front ++ rest ∧ Places text rest i) ∧
    ∀ text' front' register' number',
      Takes (skipBlanks text') front' (.instruction op) [register', number'] →
      (¬ Refused op register number → ¬ Refused op register' number' →
        registerField op register = registerField op register' →
        numberValue number = numberValue number' → StepsAlike text text') ∧
      ∀ digits digits', number = '0' :: 'x' :: digits → number' = '0' :: 'x' :: digits' →
        register = register' → digits.rtake op.hexWidth = digits'.rtake op.hexWidth → StepsAlike text text' := by
  refine ⟨fault_numeral_iff hop h, fun hgood => ?_, fun text' front' register' number' h' => ⟨?_, ?_⟩⟩
  · obtain ⟨i, rest, hopcode, hfields, htext, hplaces⟩ := places_number hop h hgood
    refine ⟨i, rest, hopcode, hfields, ?_, htext, hplaces⟩
    simpa using Instruction.decode?_encode_append i []
  · intro hgood hgood' hregister hnumber
    exact stepsAlike_of_numberValue_eq hop h h' hgood hgood' hregister hnumber
  · intro digits digits' hn hn' hregister hlast
    exact stepsAlike_of_rtake_eq hop h h' hn hn' hregister hlast

/-- Eleven in two scripts, with two registers that are the same modulo four, and with a digit too many. -/
theorem step_number_operand_eleven :
    let hex := ['L', 'D', 'I', ' ', 'R', '5', ',', '0', 'x', '0', 'B']
    let arabic := ['L', 'D', 'I', ' ', 'R', '1', ',', '١', '١']
    let long := ['L', 'D', 'I', ' ', 'R', '5', ',', '0', 'x', '7', '0', 'B']
    Takes (skipBlanks hex) hex (.instruction .ldi) [['5'], ['0', 'x', '0', 'B']] ∧
      ¬ Refused .ldi ['5'] ['0', 'x', '0', 'B'] ∧
      (∃ (i : Instruction UInt16) (rest : List Char), i.fields = [1, 11] ∧ Places hex rest i) ∧
      StepsAlike hex arabic ∧ StepsAlike hex long := by
  intro hex arabic long
  have htakes : Takes (skipBlanks hex) hex (.instruction .ldi) [['5'], ['0', 'x', '0', 'B']] := by
    rw [show skipBlanks hex = hex from skipBlanks_of_none rfl]
    exact ⟨.instruction .ldi (['5'], .hex ['0', 'B'], ()), [], rfl, rfl, rfl, rfl⟩
  have harabic : Takes (skipBlanks arabic) arabic (.instruction .ldi) [['1'], ['١', '١']] := by
    rw [show skipBlanks arabic = arabic from skipBlanks_of_none rfl]
    exact ⟨.instruction .ldi (['1'], .decimal ['١', '١'], ()), [], rfl, rfl, rfl, rfl⟩
  have hlong : Takes (skipBlanks long) long (.instruction .ldi) [['5'], ['0', 'x', '7', '0', 'B']] := by
    rw [show skipBlanks long = long from skipBlanks_of_none rfl]
    exact ⟨.instruction .ldi (['5'], .hex ['7', '0', 'B'], ()), [], rfl, rfl, rfl, rfl⟩
  have hgood : ¬ Refused .ldi ['5'] ['0', 'x', '0', 'B'] := by
    rintro (⟨_, hlt⟩ | ⟨hdecimal, _⟩)
    · exact absurd hlt (by decide)
    · exact hdecimal ⟨_, rfl⟩
  have hgood' : ¬ Refused .ldi ['1'] ['١', '١'] := by
    rintro (⟨_, hlt⟩ | ⟨_, hlt | ⟨_, ⟨c, hc, hzero⟩, _⟩⟩)
    · exact absurd hlt (by decide)
    · exact absurd hlt (by decide)
    · cases hc
      exact absurd hzero (by decide)
  obtain ⟨_, hplaces, hsame⟩ := step_number_operand (by decide) htakes
  obtain ⟨i, rest, _, hfields, _, _, hplaced⟩ := hplaces hgood
  refine ⟨htakes, hgood, ⟨i, rest, hfields, hplaced⟩, ?_, ?_⟩
  · exact (hsame _ _ _ _ harabic).1 hgood hgood' rfl rfl
  · exact (hsame _ _ _ _ hlong).2 _ _ rfl rfl rfl rfl

end State

end ByteAsm
