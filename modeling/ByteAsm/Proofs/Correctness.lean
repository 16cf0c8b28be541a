import ByteAsm.Proofs.Denotation
import ByteAsm.Proofs.Resolution
import ByteAsm.Proofs.Written
import Mathlib

/-! The assembler is correct: a written program whose labels are defined, and whose code and data
fit in their halves of the image, is assembled into exactly the image that its items describe. -/
namespace ByteAsm

open Source Text

def Opcode.size : Opcode → Nat
  | nop | hlt | ret => 1
  | mov | binary _ | not | ldirp | stirp | out | outp | outa => 2
  | ldi | ld | st | addi | cpi | ldir | stir | branch _ => 3
  | addiw => 4

theorem Instruction.length_encode (i : Instruction UInt16) : i.encode.length = i.opcode.size := by
  cases i <;> rfl

theorem Instruction.length_draft {τ : Type} (i : Instruction τ) :
    i.draft.length = i.opcode.size := by
  rw [draft, length_encode, opcode_map]

namespace Item

def size : Item → Nat
  | instruction op _ => op.size
  | _ => 0

def data : Item → List UInt8
  | ascii text => asciiBytes text
  | _ => []

def label? : Item → Option String
  | label name => some name
  | _ => none

def reference? : Item → Option String
  | instruction (.branch _) (name, ()) => some name
  | _ => none

/-- The address of the last definition of a name among items whose code starts at `addr`. -/
def address? (name : String) : Nat → List Item → Option Nat
  | _, [] => none
  | addr, item :: items =>
    match address? name (addr + item.size) items with
    | some later => some later
    | none => if item.label? = some name then some addr else none

theorem exists_address? {name : String} {items : List Item} (h : label name ∈ items) (addr : Nat) :
    ∃ found, address? name addr items = some found := by
  induction items generalizing addr with
  | nil => cases h
  | cons item items ih =>
    unfold address?
    cases hlater : address? name (addr + item.size) items with
    | some later => exact ⟨later, rfl⟩
    | none =>
      rcases List.mem_cons.1 h with rfl | h
      · exact ⟨addr, by simp [label?]⟩
      · obtain ⟨found, hfound⟩ := ih h (addr + item.size)
        rw [hlater] at hfound
        cases hfound

end Item

def Source.Slot.Readable : (s : Slot) → s.Value → Prop
  | .register, digits | .indirect, digits => ∃ r, registerOf digits = .ok r
  | .literal, w => ∃ n, w.value = .ok n
  | .pair, _ | .indirectPair, _ | .name, _ => True

def Source.Operands.Readable : (slots : List Slot) → Operands slots → Prop
  | [], () => True
  | s :: ss, (v, vs) => s.Readable v ∧ Operands.Readable ss vs

theorem Source.exists_registerOf {digits : List Char} (h : digits.length ≤ Numeral.maxDigits) :
    ∃ r, registerOf digits = .ok r := by
  rw [registerOf, Numeral.readDecimal_eq_ok_iff.2 ⟨h, rfl⟩]
  exact ⟨_, rfl⟩

theorem Source.Slot.Valid.readable {s : Slot} {v : s.Value} (h : s.Valid v) : s.Readable v := by
  cases s with
  | register | indirect => exact exists_registerOf h
  | pair | indirectPair | name => trivial
  | literal =>
    cases v with
    | hex digits => exact ⟨_, rfl⟩
    | decimal digits =>
      obtain ⟨hshort, hzero⟩ := h
      have hgood : ¬ (Numeral.startsWithZero digits = true ∧ Numeral.decimalValue digits ≠ 0) := by
        rintro ⟨hs, hne⟩
        exact hne (hzero hs)
      simp only [Slot.Readable, Literal.value, Numeral.readDecimal_eq_ok_iff.2 ⟨hshort, rfl⟩,
        if_neg hgood]
      exact ⟨_, rfl⟩

theorem Source.Operands.Valid.readable {slots : List Slot} {vs : Operands slots}
    (h : Operands.Valid slots vs) : Operands.Readable slots vs := by
  induction slots with
  | nil => trivial
  | cons s ss ih => exact ⟨h.1.readable, ih h.2⟩

theorem Opcode.exists_instruction {op : Opcode} {operands : Operands op.slots}
    (h : Operands.Readable op.slots operands) : ∃ i, op.instruction operands = .ok i := by
  cases op with
  | nop | hlt | ret | outp | branch => exact ⟨_, rfl⟩
  | ldi | addi | cpi | ld | st | ldir | stir | mov | not =>
    obtain ⟨d, w, ⟨⟩⟩ := operands
    obtain ⟨⟨r, hr⟩, ⟨n, hn⟩, _⟩ := h
    simp only [Opcode.instruction, hr, hn]
    exact ⟨_, rfl⟩
  | binary op =>
    obtain ⟨a, b, c, ⟨⟩⟩ := operands
    obtain ⟨⟨r, hr⟩, ⟨q, hq⟩, ⟨p, hp⟩, _⟩ := h
    simp only [Opcode.instruction, hr, hq, hp]
    exact ⟨_, rfl⟩
  | ldirp | out | outa =>
    obtain ⟨⟨r, hr⟩, _⟩ := h
    simp only [Opcode.instruction, hr]
    exact ⟨_, rfl⟩
  | stirp | addiw =>
    obtain ⟨_, ⟨r, hr⟩, _⟩ := h
    simp only [Opcode.instruction, hr]
    exact ⟨_, rfl⟩

namespace Item

structure Realised (item : Item) (a : Action) : Prop where
  action : item.statement.action = .ok a
  size : a.draft.length = item.size
  data : a.data = item.data
  isPad : a.isPad = false
  definition : ∀ addr, Layout.definition? (addr, a) = item.label?.map (·, addr)
  reference : ∀ addr, Layout.reference? (addr, a) = item.reference?.map (⟨·, addr⟩)

theorem Valid.realised {item : Item} (h : item.Valid) : ∃ a, item.Realised a := by
  cases item with
  | label name => exact ⟨.define name, rfl, rfl, rfl, rfl, fun _ => rfl, fun _ => rfl⟩
  | ascii body =>
    refine ⟨.store .add (asciiBytes body), ?_, rfl, rfl, rfl, fun _ => rfl, fun _ => rfl⟩
    rw [statement, Statement.action_data, bodyBytes_escape h]
  | instruction op operands =>
    obtain ⟨hnop, hvalid⟩ := h
    obtain ⟨i, hi⟩ := Opcode.exists_instruction hvalid.readable
    have hop := Opcode.opcode_of_instruction hi
    have ha : Action.ofInstruction i = .emit i.placement i := by
      rcases Action.ofInstruction_cases i with ⟨hn, _⟩ | ⟨_, ha⟩
      · exact absurd (hop.symm.trans hn) hnop
      · exact ha
    refine ⟨.emit i.placement i, ?_, ?_, rfl, rfl, fun _ => rfl, ?_⟩
    · simp only [statement, Statement.action_instruction, hi, ha]
    · exact (i.length_draft).trans (by rw [hop]; rfl)
    · intro addr
      subst hop
      cases i with
      | branch op name =>
        obtain ⟨label, ⟨⟩⟩ := operands
        cases hi
        rfl
      | _ => rfl

end Item

section

variable {items : List Item} {as : List Action}

theorem length_draft_of_realised (h : List.Forall₂ Item.Realised items as) :
    (Layout.draft as).length = (items.map Item.size).sum := by
  induction h with
  | nil => rfl
  | cons ha _ ih => simp [ha.size, ih]

theorem data_of_realised (h : List.Forall₂ Item.Realised items as) :
    Layout.data as = items.flatMap Item.data := by
  induction h with
  | nil => rfl
  | cons ha _ ih => simp [ha.data, ih]

theorem pads_of_realised (h : List.Forall₂ Item.Realised items as) : Layout.pads as = 0 := by
  induction h with
  | nil => rfl
  | cons ha _ ih =>
    rw [Layout.pads] at ih ⊢
    simp [ha.isPad, ih]

theorem actions_of_realised (h : List.Forall₂ Item.Realised items as) :
    HasActions (items.map Item.statement) as := by
  induction h with
  | nil => exact .nil
  | cons ha _ ih => exact .cons ha.action ih

theorem definitions_of_realised (h : List.Forall₂ Item.Realised items as) (name : String)
    (addr : Nat) : ((Layout.located addr as).filterMap Layout.definition?).reverse.lookup name =
      Item.address? name addr items := by
  induction h generalizing addr with
  | nil => rfl
  | @cons item a items as ha _ ih =>
    rw [Item.address?, ← ha.size, ← ih, Layout.located, List.filterMap_cons, ha.definition]
    generalize (Layout.located (addr + a.draft.length) as).filterMap Layout.definition? = later
    cases item.label? with
    | none =>
      simp only [Option.map_none]
      cases later.reverse.lookup name <;> rfl
    | some other =>
      simp only [Option.map_some, List.reverse_cons, List.lookup_append]
      by_cases he : other = name
      · cases later.reverse.lookup name <;> simp [he]
      · cases later.reverse.lookup name <;> simp [he, Ne.symm he]

theorem address?_of_realised (h : List.Forall₂ Item.Realised items as) (name : String) :
    Layout.address? as name = Item.address? name 0 items :=
  definitions_of_realised h name 0

theorem reference_of_realised (h : List.Forall₂ Item.Realised items as) {addr : Nat}
    {r : Reference} (hr : r ∈ (Layout.located addr as).filterMap Layout.reference?) :
    ∃ item ∈ items, item.reference? = some r.label := by
  induction h generalizing addr with
  | nil => simp [Layout.located] at hr
  | @cons item a items as ha _ ih =>
    obtain ⟨⟨place, b⟩, hp, he⟩ := List.mem_filterMap.1 hr
    rcases List.mem_cons.1 hp with hp | hp
    · cases hp
      rw [ha.reference] at he
      obtain ⟨name, hname, rfl⟩ := Option.map_eq_some_iff.1 he
      exact ⟨item, List.mem_cons_self, hname⟩
    · obtain ⟨found, hfound, hlabel⟩ := ih (List.mem_filterMap.2 ⟨_, hp, he⟩)
      exact ⟨found, List.mem_cons_of_mem item hfound, hlabel⟩

end

namespace State

/-- With code and data in their halves, the image is fixed byte by byte. -/
theorem Shows.toList_image {s : State} {code data : List UInt8} (h : s.Shows code data)
    (hsize : s.image.size = 0x10000) (hcode : code.length ≤ 0x8000)
    (hdata : data.length ≤ 0x8000) :
    s.image.toList = code ++ List.replicate (0x8000 - code.length) 0 ++
      (data ++ List.replicate (0x8000 - data.length) 0) := by
  have hc := h.code_eq
  have hd := h.data_eq
  apply List.ext_getElem?
  intro i
  rw [Array.getElem?_toList]
  rcases Nat.lt_or_ge i 0x8000 with hlow | hhigh
  · rw [List.getElem?_append_left (by simp; omega)]
    rcases Nat.lt_or_ge i code.length with hi | hi
    · rw [List.getElem?_append_left hi]
      exact h.code_byte i (by omega) (.inl hlow)
    · rw [List.getElem?_append_right hi, List.getElem?_replicate, if_pos (by omega)]
      exact h.zero i (by omega) (by omega) (.inl hlow)
  · have hhalf : (code ++ List.replicate (0x8000 - code.length) (0 : UInt8)).length = 0x8000 := by
      simp; omega
    rw [List.getElem?_append_right (by omega), hhalf]
    rcases Nat.lt_or_ge (i - 0x8000) data.length with hi | hi
    · rw [List.getElem?_append_left hi]
      exact h.data_byte i (by omega) hhigh (by omega)
    · rw [List.getElem?_append_right hi, List.getElem?_replicate]
      split
      · exact h.zero i (by omega) (by omega) (.inr (by omega))
      · exact Array.getElem?_eq_none (by omega)

end State

theorem Layout.code_eq_flatMap (target : String → UInt16) (addr : Nat) (as : List Action) :
    Layout.code target as = (((located addr as).filterMap instruction?).map
      fun p => (p.1, p.2.map target)).flatMap fun p => p.2.encode := by
  induction as generalizing addr with
  | nil => rfl
  | cons a as ih =>
    cases a with
    | emit p i =>
      rw [code_cons, ih (addr + (Action.emit p i).draft.length)]
      rfl
    | _ => exact ih addr

/-- A written program is assembled without a fault, and the image is what its items describe: the
instructions from address zero on, each branch with the address of the last definition of its label,
the strings from `0x8000` on, and zeros elsewhere. -/
theorem assemble_written {items : List Item} {text : List Char} (h : Written items text)
    (hdef : ∀ item ∈ items, ∀ name, item.reference? = some name → Item.label name ∈ items)
    (hcode : (items.map Item.size).sum ≤ 0x8000)
    (hdata : (items.flatMap Item.data).length ≤ 0x8000) :
    let o := (State.fresh.withText text).program.andThen State.resolve
    o.fault = none ∧
      ∃ instructions : List (Instruction UInt16),
        List.Forall₂ (fun statement i => statement.Denotes (Item.address? · 0 items) i)
          ((items.map Item.statement).filter Statement.isCode) instructions ∧
        let code := instructions.flatMap Instruction.encode
        let data := items.flatMap Item.data
        o.state.image.toList = code ++ List.replicate (0x8000 - code.length) 0 ++
          (data ++ List.replicate (0x8000 - data.length) 0) := by
  intro o
  obtain ⟨as, has⟩ := exists_forall₂ fun item hitem => (h.valid item hitem).realised
  have hstatements : [text].flatMap Source.statements = items.map Item.statement := by
    simp [h.statements]
  have hactions := actions_of_realised has
  rw [← hstatements] at hactions
  rw [← length_draft_of_realised has] at hcode
  have hd := data_of_realised has
  rw [← hd] at hdata
  have hlabels : ∀ r ∈ Layout.references as, ∃ addr, Layout.address? as r.label = some addr := by
    intro r hr
    obtain ⟨item, hitem, hname⟩ := reference_of_realised has hr
    rw [address?_of_realised has]
    exact Item.exists_address? (hdef item hitem r.label hname) 0
  obtain ⟨hf, hass⟩ := State.assembled_of_actions hactions hcode hdata hlabels
  rw [State.programs_singleton] at hf hass
  refine ⟨hf, ((Layout.instructions as).map fun p => (p.1, p.2.map (Layout.target as))).map Prod.snd,
    ?_, ?_⟩
  · rw [List.forall₂_map_right_iff, ← hstatements]
    apply Layout.denotes_located hass.actions
    intro p hp name hn
    rw [← address?_of_realised has]
    exact Layout.address?_eq_target hlabels (by omega) hp hn
  · intro code data
    have hbytes : code = Layout.code (Layout.target as) as := by
      rw [Layout.code_eq_flatMap _ 0 as]
      exact List.flatMap_map ..
    have hsize : o.state.image.size = 0x10000 := by
      have := hass.records.size
      rwa [pads_of_realised has] at this
    rw [hbytes, show data = Layout.data as from hd.symm]
    apply hass.showing.toList_image hsize
    · rwa [Layout.length_code]
    · exact hdata

/-- A branch back to the start, with a comment, a quote in a string and a register number that
is cut to its field. -/
theorem assemble_written_branch_back :
    let items := [.label "A", .instruction .ldi (['5'], .hex ['1', 'F'], ()), .ascii ['"'],
      .instruction (.branch .jmp) ("A", ())]
    let text := "A:\nLDI R5,0x1F#c\n.ascii \"\\\"\" JMP\tA\n".toList
    let o := (State.fresh.withText text).program.andThen State.resolve
    Written items text ∧ o.fault = none ∧
      ∃ instructions : List (Instruction UInt16),
        List.Forall₂ (fun statement i => statement.Denotes (Item.address? · 0 items) i)
          ((items.map Item.statement).filter Statement.isCode) instructions ∧
        let code := instructions.flatMap Instruction.encode
        let data := items.flatMap Item.data
        o.state.image.toList = code ++ List.replicate (0x8000 - code.length) 0 ++
          (data ++ List.replicate (0x8000 - data.length) 0) := by
  intro items text
  have hline : Separator ['\n'] := .blank (.space (by decide))
  have hspace : Separator [' '] := .blank (.space (by decide))
  have hcomment : Separator (['#'] ++ (['c'] ++ ['\n'])) := .blank (.comment (.inl rfl) (by decide))
  have hname : IsName "A".toList := ⟨'A', [], rfl, by decide, by simp⟩
  have hlabel : Item.Spelled (.label "A") ['A', ':'] := ⟨⟨hname, rfl⟩, trivial⟩
  have hgap : ∀ c, isSpace c = true → SpaceRun [c] := by
    intro c hc
    exact ⟨by simp, by simpa using hc⟩
  have hldi : Item.Spelled (.instruction .ldi (['5'], .hex ['1', 'F'], ()))
      ['L', 'D', 'I', ' ', 'R', '5', ',', '0', 'x', '1', 'F'] := by
    refine ⟨⟨_, ⟨[' '], ['R', '5'], _, rfl, hgap ' ' (by decide), ⟨?_, rfl⟩,
      [','], ['0', 'x', '1', 'F'], [], rfl, ⟨[], [], rfl, by simp, by simp⟩, ?_, rfl⟩, rfl⟩, ?_⟩
    · exact ⟨by simp, List.all_eq_true.1 (by decide)⟩
    · exact ⟨by simp, List.all_eq_true.1 (by decide), rfl⟩
    · exact ⟨by decide, Nat.le_of_ble_eq_true rfl, trivial, trivial⟩
  have hascii : Item.Spelled (.ascii ['"']) ['.', 'a', 's', 'c', 'i', 'i', ' ', '"', '\\', '"', '"'] :=
    ⟨⟨body_escape ['"'], [' '], hgap ' ' (by decide), rfl⟩, by simp [Item.Valid]⟩
  have hjmp : Item.Spelled (.instruction (.branch .jmp) ("A", ())) ['J', 'M', 'P', '\t', 'A'] :=
    ⟨⟨_, ⟨['\t'], ['A'], [], rfl, hgap '\t' (by decide), ⟨hname, rfl⟩, rfl⟩, rfl⟩,
      by decide, trivial, trivial⟩
  have h : Written items text :=
    .cons hlabel hline (.cons hldi hcomment (.cons hascii hspace (.cons hjmp hline .nil)))
  refine ⟨h, assemble_written h ?_ (by decide) (by decide)⟩
  intro item hitem name hname
  simp only [items, List.mem_cons, List.not_mem_nil, or_false] at hitem
  rcases hitem with rfl | rfl | rfl | rfl <;> cases hname
  simp [items]

end ByteAsm
