import ByteAsm.Proofs.Denotation
import ByteAsm.Proofs.Resolution

/-! Reading an assembled image back. A sweep over the code finds the instructions of the source
texts again, and every branch leads to one of them or to the end of the code. -/
namespace ByteAsm

open Source

theorem Opcode.length_decode? {op : Opcode} {bytes rest : List UInt8} {i : Instruction UInt16}
    (h : op.decode? bytes = some (i, rest)) : rest.length ≤ bytes.length := by
  unfold Opcode.decode? at h
  split at h <;> simp_all <;> omega

theorem Instruction.length_decode?_lt {bytes rest : List UInt8} {i : Instruction UInt16}
    (h : decode? bytes = some (i, rest)) : rest.length < bytes.length := by
  cases bytes with
  | nil => cases h
  | cons b bytes =>
    obtain ⟨op, _, hop⟩ := Option.bind_eq_some_iff.1 h
    have := Opcode.length_decode? hop
    simp only [List.length_cons]
    omega

/-- Read byte code from its first byte to its last, one instruction after the other, each with
its address. The opcode alone tells how long an instruction is. -/
def sweep (addr : Nat) (bytes : List UInt8) : Option (List (Nat × Instruction UInt16)) :=
  if bytes = [] then some []
  else
    match _ : Instruction.decode? bytes with
    | none => none
    | some (i, rest) =>
      (sweep (addr + (bytes.length - rest.length)) rest).map ((addr, i) :: ·)
termination_by bytes.length
decreasing_by exact Instruction.length_decode?_lt ‹_›

@[simp] theorem sweep_nil (addr : Nat) : sweep addr [] = some [] := by
  rw [sweep]
  rfl

theorem sweep_encode_append (addr : Nat) (i : Instruction UInt16) (rest : List UInt8) :
    sweep addr (i.encode ++ rest) =
      (sweep (addr + i.encode.length) rest).map ((addr, i) :: ·) := by
  have hdec := Instruction.decode?_encode_append i rest
  rw [sweep, if_neg (by simp [Instruction.encode])]
  split
  · rename_i hnone
    rw [hdec] at hnone
    cases hnone
  · rename_i j back hsome
    rw [hdec] at hsome
    cases hsome
    rw [List.length_append, Nat.add_sub_cancel]

namespace Layout

variable {as : List Action} {addr : Nat}

/-- The sweep over the code of some actions finds the instructions that they place. -/
theorem sweep_code (target : String → UInt16) (addr : Nat) (as : List Action) :
    sweep addr (code target as) = some (((located addr as).filterMap instruction?).map
      fun p => (p.1, p.2.map target)) := by
  induction as generalizing addr with
  | nil => simp [located]
  | cons a as ih =>
    cases a with
    | emit p i =>
      have hlen : i.draft.length = (i.map target).encode.length :=
        ((Action.emit p i).length_code target).symm
      simp [located, Action.code, Action.draft, sweep_encode_append, hlen, instruction?, ih]
    | _ => simpa [located, Action.code, Action.draft, List.filterMap_cons, instruction?] using ih addr

theorem start_located (addr : Nat) (as : List Action) :
    addr ∈ ((located addr as).filterMap instruction?).map Prod.fst ∨ draft as = [] := by
  induction as with
  | nil => exact .inr rfl
  | cons a as ih =>
    cases a with
    | emit p i => exact .inl (by simp [located, instruction?])
    | _ => simpa [located, instruction?, Action.draft] using ih

theorem mem_located {p : Nat × Action} (hp : p ∈ located addr as) :
    p.1 ∈ ((located addr as).filterMap instruction?).map Prod.fst ∨
      p.1 = addr + (draft as).length := by
  induction as generalizing addr with
  | nil => simp [located] at hp
  | cons a as ih =>
    rcases List.mem_cons.1 hp with rfl | hp
    · rcases start_located addr (a :: as) with h | h
      · exact .inl h
      · exact .inr (by rw [h]; rfl)
    · rcases ih hp with h | h
      · left
        simp only [located, List.filterMap_cons]
        split
        · exact h
        · exact List.mem_cons_of_mem _ h
      · right
        simp only [draft_cons, List.length_append]
        omega

/-- A name leads to the start of an instruction or to the end of the code. -/
theorem address?_start {name : String} (h : address? as name = some addr) :
    addr ∈ (instructions as).map Prod.fst ∨ addr = (draft as).length := by
  obtain ⟨p, hp, rfl⟩ := exists_located_of_address? h
  have := mem_located hp
  rw [Nat.zero_add] at this
  exact this

end Layout

namespace State

theorem Shows.take_code {s : State} {code data : List UInt8} (h : s.Shows code data)
    (hle : s.code ≤ 0x8000) : s.image.toList.take s.code = code := by
  apply List.ext_getElem?
  intro i
  by_cases hi : i < s.code
  · rw [List.getElem?_take_of_lt hi, Array.getElem?_toList]
    exact h.code_byte i hi (.inl (by omega))
  · have hlen := h.code_eq
    rw [List.getElem?_eq_none (by rw [List.length_take]; omega), List.getElem?_eq_none (by omega)]

/-- Disassembly undoes assembly. The sweep over the code of an assembled program consumes exactly
this code. It finds the instructions of the source texts in their order, and every branch target is
the start of one of them or the end of the code. -/
theorem sweep_assembled (texts : List (List Char))
    (hf : ((fresh.programs texts).andThen State.resolve).fault = none)
    (hcode : ((fresh.programs texts).andThen State.resolve).state.code ≤ 0x8000) :
    let s := ((fresh.programs texts).andThen State.resolve).state
    ∃ swept, sweep 0 (s.image.toList.take s.code) = some swept ∧
      List.Forall₂ (fun statement p => statement.Denotes (s.labels[·]?) p.2)
        ((texts.flatMap statements).filter Statement.isCode) swept ∧
      ∀ p ∈ swept, ∀ target, p.2.target? = some target →
        target.toNat ∈ swept.map Prod.fst ∨ target.toNat = s.code := by
  intro s
  obtain ⟨as, h⟩ := exists_assembled hf
  change s.code ≤ 0x8000 at hcode
  have hend : s.code = (Layout.draft as).length := h.records.code
  have hlabel : ∀ p ∈ Layout.instructions as, ∀ name, p.2.target? = some name →
      Layout.address? as name = some (Layout.target as name).toNat := by
    intro p hp name hn
    exact Layout.address?_eq_target h.defined (by omega) hp hn
  refine ⟨(Layout.instructions as).map fun p => (p.1, p.2.map (Layout.target as)), ?_, ?_, ?_⟩
  · rw [h.showing.take_code hcode]
    exact Layout.sweep_code _ 0 as
  · apply Layout.denotes_located h.actions
    intro p hp name hn
    rw [h.records.labels]
    exact hlabel p hp name hn
  · intro p hp target ht
    obtain ⟨q, hq, rfl⟩ := List.mem_map.1 hp
    rw [Instruction.target?_map] at ht
    obtain ⟨name, hn, rfl⟩ := Option.map_eq_some_iff.1 ht
    have hstart := Layout.address?_start (hlabel q hq name hn)
    rw [List.map_map, hend]
    exact hstart

/-- Two texts, the second of which branches into the first. Its no-operation is not swept. -/
theorem sweep_assembled_across_texts :
    let texts := ["A:LDI R5,300".toList, "NOP\nJMP A".toList]
    ((fresh.programs texts).andThen State.resolve).fault = none ∧
      ((fresh.programs texts).andThen State.resolve).state.code = 6 ∧
      let s := ((fresh.programs texts).andThen State.resolve).state
      ∃ swept, sweep 0 (s.image.toList.take s.code) = some swept ∧
        List.Forall₂ (fun statement p => statement.Denotes (s.labels[·]?) p.2)
          ((texts.flatMap statements).filter Statement.isCode) swept ∧
        ∀ p ∈ swept, ∀ target, p.2.target? = some target →
          target.toNat ∈ swept.map Prod.fst ∨ target.toNat = s.code := by
  intro texts
  have hfirst : statements "A:LDI R5,300".toList =
      [.label "A", .instruction .ldi (['5'], .decimal ['3', '0', '0'], ())] := by
    have hlabel : Statement.read? (skipBlanks "A:LDI R5,300".toList) =
        some (.label "A", "LDI R5,300".toList) := by
      rw [skipBlanks_of_none rfl]
      rfl
    have hldi : Statement.read? (skipBlanks "LDI R5,300".toList) =
        some (.instruction .ldi (['5'], .decimal ['3', '0', '0'], ()), []) := by
      rw [skipBlanks_of_none rfl]
      rfl
    rw [statements_of_read? hlabel, statements_of_read? hldi, statements_nil]
  have hsecond : statements "NOP\nJMP A".toList =
      [.instruction .nop (), .instruction (.branch .jmp) ("A", ())] := by
    have hnop : Statement.read? (skipBlanks "NOP\nJMP A".toList) =
        some (.instruction .nop (), "\nJMP A".toList) := by
      rw [skipBlanks_of_none rfl]
      rfl
    have hline : afterBlank? "\nJMP A".toList = some "JMP A".toList := rfl
    have hjmp : Statement.read? (skipBlanks "\nJMP A".toList) =
        some (.instruction (.branch .jmp) ("A", ()), []) := by
      rw [skipBlanks_of_afterBlank? hline, skipBlanks_of_none rfl]
      rfl
    rw [statements_of_read? hnop, statements_of_read? hjmp, statements_nil]
  have hactions : HasActions (texts.flatMap statements)
      [.define "A", .emit .add (.ldi 1 44), .pad, .emit .add (.branch .jmp "A")] := by
    rw [List.flatMap_cons, List.flatMap_cons, hfirst, hsecond]
    exact .cons rfl (.cons rfl (.cons rfl (.cons rfl .nil)))
  obtain ⟨hf, h⟩ := assembled_of_actions hactions (by decide) (by decide) (by
    intro r hr
    cases List.mem_singleton.1 hr
    exact ⟨0, rfl⟩)
  have hend : ((fresh.programs texts).andThen State.resolve).state.code = 6 := h.records.code
  exact ⟨hf, hend, sweep_assembled texts hf (by rw [hend]; decide)⟩

end State

end ByteAsm
