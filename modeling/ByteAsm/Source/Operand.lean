import ByteAsm.Numeral
import ByteAsm.Source.Blank
import ByteAsm.Source.Mnemonic
import ByteAsm.Text.Word

/-! Reading the operands of an instruction off the front of a text. Every reader returns what
it has read with the rest of the text. -/
namespace ByteAsm.Source

open Text

def readRun? (p : Char → Bool) (text : List Char) : Option (List Char × List Char) :=
  match text.takeWhile p with
  | [] => none
  | run => some (run, text.dropWhile p)

def readName? : List Char → Option (String × List Char)
  | [] => none
  | c :: rest =>
    if isNameStart c then
      some (String.ofList (c :: rest.takeWhile isWord), rest.dropWhile isWord)
    else none

def readRegister? (text : List Char) : Option (List Char × List Char) :=
  (after? ['R'] text).bind (readRun? isDigit)

def readPair? (text : List Char) : Option (RegisterPair × List Char) :=
  match after? ['R', '0', '1'] text with
  | some rest => some (.r01, rest)
  | none => (after? ['R', '2', '3'] text).map fun rest => (.r23, rest)

/-- A number. Without a digit behind `0x` the number is the zero in front. -/
def readLiteral? (text : List Char) : Option (Literal × List Char) :=
  match (after? ['0', 'x'] text).bind (readRun? isHexDigit) with
  | some (digits, rest) => some (.hex digits, rest)
  | none => (readRun? isDigit text).map fun (digits, rest) => (.decimal digits, rest)

/-- Something in parentheses, without space inside. -/
def readParens? {α : Type} (read : List Char → Option (α × List Char)) (text : List Char) :
    Option (α × List Char) := do
  let (a, rest) ← read (← after? ['('] text)
  let rest ← after? [')'] rest
  return (a, rest)

/-- What an operand is read as. Numbers keep their digits. -/
abbrev Slot.Value : Slot → Type
  | register | indirect => List Char
  | pair | indirectPair => RegisterPair
  | literal => Literal
  | name => String

def Slot.read? : (s : Slot) → List Char → Option (s.Value × List Char)
  | register, text => readRegister? text
  | indirect, text => readParens? readRegister? text
  | pair, text => readPair? text
  | indirectPair, text => readParens? readPair? text
  | literal, text => readLiteral? text
  | name, text => readName? text

abbrev Operands : List Slot → Type
  | [] => Unit
  | s :: ss => s.Value × Operands ss

def afterComma? (text : List Char) : Option (List Char) :=
  (after? [','] (dropSpace text)).map dropSpace

/-- Read operands with commas between them. `lead` takes what stands before the first. -/
def Operands.read? :
    (slots : List Slot) → (lead : List Char → Option (List Char)) → List Char →
      Option (Operands slots × List Char)
  | [], _, text => some ((), text)
  | s :: ss, lead, text => do
    let (v, text) ← s.read? (← lead text)
    let (vs, text) ← Operands.read? ss afterComma? text
    return ((v, vs), text)

def readInstruction? (op : Opcode) (text : List Char) :
    Option (Operands op.slots × List Char) := do
  let (operands, rest) ← Operands.read? op.slots afterSpace? (← after? op.word text)
  return (operands, if op.takesSpace then dropSpace rest else rest)

theorem readRun?_eq_some_iff {p : Char → Bool} {text run rest : List Char} :
    readRun? p text = some (run, rest) ↔
      run ≠ [] ∧ text.takeWhile p = run ∧ text.dropWhile p = rest := by
  unfold readRun?
  split <;> grind

theorem readRun?_suffix {p : Char → Bool} {text run rest : List Char}
    (h : readRun? p text = some (run, rest)) : rest <:+ text :=
  (readRun?_eq_some_iff.1 h).2.2 ▸ List.dropWhile_suffix p

theorem readName?_suffix {text rest : List Char} {name : String}
    (h : readName? text = some (name, rest)) : rest <:+ text := by
  unfold readName? at h
  split at h
  · simp at h
  · split at h
    · simp only [Option.some.injEq, Prod.mk.injEq] at h
      exact h.2 ▸ (List.dropWhile_suffix _).trans (List.suffix_cons _ _)
    · simp at h

theorem readRegister?_suffix {text digits rest : List Char}
    (h : readRegister? text = some (digits, rest)) : rest <:+ text := by
  obtain ⟨t, ht, hr⟩ := Option.bind_eq_some_iff.1 h
  exact (readRun?_suffix hr).trans (after?_suffix ht)

theorem readPair?_suffix {text rest : List Char} {p : RegisterPair}
    (h : readPair? text = some (p, rest)) : rest <:+ text := by
  unfold readPair? at h
  split at h
  · rename_i hr
    simp only [Option.some.injEq, Prod.mk.injEq] at h
    exact h.2 ▸ after?_suffix hr
  · simp only [Option.map_eq_some_iff, Prod.mk.injEq] at h
    obtain ⟨r, hr, _, rfl⟩ := h
    exact after?_suffix hr

theorem readLiteral?_suffix {text rest : List Char} {w : Literal}
    (h : readLiteral? text = some (w, rest)) : rest <:+ text := by
  unfold readLiteral? at h
  split at h
  · rename_i hr
    obtain ⟨t, ht, hr⟩ := Option.bind_eq_some_iff.1 hr
    simp only [Option.some.injEq, Prod.mk.injEq] at h
    exact h.2 ▸ (readRun?_suffix hr).trans (after?_suffix ht)
  · simp only [Option.map_eq_some_iff, Prod.mk.injEq, Prod.exists] at h
    obtain ⟨ds, r, hr, _, rfl⟩ := h
    exact readRun?_suffix hr

theorem readParens?_suffix {α : Type} {read : List Char → Option (α × List Char)}
    (hread : ∀ {t a r}, read t = some (a, r) → r <:+ t) {text rest : List Char} {a : α}
    (h : readParens? read text = some (a, rest)) : rest <:+ text := by
  simp only [readParens?, Option.bind_eq_bind, Option.bind_eq_some_iff, Prod.exists,
    Option.pure_def, Option.some.injEq, Prod.mk.injEq] at h
  obtain ⟨t, ht, b, r, hr, s, hs, _, rfl⟩ := h
  exact (after?_suffix hs).trans ((hread hr).trans (after?_suffix ht))

theorem Slot.read?_suffix {s : Slot} {text rest : List Char} {v : s.Value}
    (h : s.read? text = some (v, rest)) : rest <:+ text := by
  cases s with
  | register => exact readRegister?_suffix h
  | indirect => exact readParens?_suffix readRegister?_suffix h
  | pair => exact readPair?_suffix h
  | indirectPair => exact readParens?_suffix readPair?_suffix h
  | literal => exact readLiteral?_suffix h
  | name => exact readName?_suffix h

theorem afterComma?_suffix {text rest : List Char} (h : afterComma? text = some rest) :
    rest <:+ text := by
  simp only [afterComma?, Option.map_eq_some_iff] at h
  obtain ⟨t, ht, rfl⟩ := h
  exact (dropSpace_suffix t).trans ((after?_suffix ht).trans (dropSpace_suffix text))

theorem Operands.read?_suffix {slots : List Slot} {lead : List Char → Option (List Char)}
    (hlead : ∀ {t r}, lead t = some r → r <:+ t) {text rest : List Char} {vs : Operands slots}
    (h : Operands.read? slots lead text = some (vs, rest)) : rest <:+ text := by
  induction slots generalizing lead text rest with
  | nil =>
    simp only [Operands.read?, Option.some.injEq, Prod.mk.injEq] at h
    exact h.2 ▸ List.suffix_refl _
  | cons s ss ih =>
    simp only [Operands.read?, Option.bind_eq_bind, Option.bind_eq_some_iff, Prod.exists,
      Option.pure_def, Option.some.injEq, Prod.mk.injEq] at h
    obtain ⟨t, ht, v, r, hr, us, q, hq, _, rfl⟩ := h
    exact (ih afterComma?_suffix hq).trans ((Slot.read?_suffix hr).trans (hlead ht))

theorem readInstruction?_suffix {op : Opcode} {text rest : List Char} {vs : Operands op.slots}
    (h : readInstruction? op text = some (vs, rest)) : rest <:+ text ∧ rest.length < text.length := by
  simp only [readInstruction?, Option.bind_eq_bind, Option.bind_eq_some_iff, Prod.exists,
    Option.pure_def, Option.some.injEq, Prod.mk.injEq] at h
  obtain ⟨t, ht, us, q, hq, _, rfl⟩ := h
  have hrest : (if op.takesSpace then dropSpace q else q) <:+ t := by
    have := Operands.read?_suffix (fun h => (afterSpace?_suffix h).1) hq
    split
    · exact (dropSpace_suffix q).trans this
    · exact this
  refine ⟨hrest.trans (after?_suffix ht), ?_⟩
  have hlen := hrest.length_le
  have hword := List.length_pos_iff.2 op.word_ne_nil
  rw [after?_eq_some_iff.1 ht, List.length_append]
  omega

end ByteAsm.Source
