import ByteAsm.Proofs.Integrity
import ByteAsm.Proofs.Naming

/-! Branches in code of any length. A program without strings keeps all the bytes of its code, however far
the code goes, and each of its branches holds the last sixteen bits of the address of its label. Only a
label behind `0x10000` bytes of code has more bits than that: a branch to the end of a full image leads
to address zero. -/
namespace ByteAsm

open Source

theorem wordOfBytes_lt (hi lo : UInt8) : wordOfBytes hi lo < 0x10000 := by
  have hhi := hi.toNat_lt
  have hlo := lo.toNat_lt
  simp only [wordOfBytes]
  omega

namespace State

variable {s : State} {as bs : List Action} {a : Action} {code : List UInt8} {text : List Char}

/-- Without data, code meets no fault before the end of the image. -/
theorem Shows.fault_perform_of_no_data (h : s.Shows code [])
    (hsize : (code ++ a.draft).length ≤ s.image.size) (hdata : a.data = []) :
    (s.perform a).fault = none := by
  cases a with
  | emit p i =>
    have he : s.code = 0 + code.length := by simp [h.code_eq]
    simp only [Action.draft, List.length_append] at hsize
    simp only [perform_emit, he, Option.map_eq_none_iff]
    apply h.image.overlay.fault_place
    · intro k hk
      simp only [Array.getElem?_replicate, if_pos (show 0 + code.length + k < s.image.size by omega)]
    · intro k _
      simp only [List.length_nil]
      omega
  | store p bytes =>
    simp only [Action.data] at hdata
    simp [perform_store, hdata]
  | _ => rfl

theorem Shows.fault_forEach_of_no_data (h : s.Shows code [])
    (hsize : (code ++ Layout.draft bs).length ≤ s.image.size) (hdata : Layout.data bs = []) :
    (Outcome.forEach State.perform s bs).fault = none := by
  induction bs generalizing s code with
  | nil => rfl
  | cons a bs ih =>
    obtain ⟨ha, hbs⟩ := List.append_eq_nil_iff.1 hdata
    simp only [Layout.draft_cons, List.length_append] at hsize
    have hf : (s.perform a).fault = none :=
      h.fault_perform_of_no_data (by simp only [List.length_append]; omega) ha
    have hnext := h.perform hf
    rw [ha, List.append_nil] at hnext
    simp only [Outcome.forEach_cons, Outcome.fault_andThen _ hf]
    apply ih hnext _ hbs
    simp only [size_perform, List.length_append]
    omega

theorem Assembled.split {before after : List Statement} {statement : Statement}
    (h : Assembled [text] as s) (hsplit : statements text = before ++ statement :: after) :
    ∃ bs a cs, as = bs ++ a :: cs ∧ statement.action = .ok a ∧
      (Outcome.forEach execute fresh before).state.Records bs := by
  have hactions := h.actions
  rw [List.flatMap_singleton, hsplit] at hactions
  obtain ⟨bs, a, cs, rfl, hbs, ha⟩ := split_actions hactions
  refine ⟨bs, a, cs, rfl, ha, ?_⟩
  have hperformed := h.performed
  rw [Outcome.forEach_append, Outcome.fault_andThen_eq_none_iff] at hperformed
  rw [forEach_execute_of_actions hbs]
  exact records_fresh.forEach hperformed.1

/-- Without data every byte of a branch is where it was placed, with the word of its target. -/
theorem Assembled.branch_bytes {cs : List Action} {t : State} {p : Placement} {op : BranchOp}
    {name : String} (h : Assembled [text] (bs ++ .emit p (.branch op name) :: cs) s)
    (ht : t.Records bs) (hdata : Layout.data (bs ++ .emit p (.branch op name) :: cs) = []) :
    s.image[t.code]? = some (Opcode.branch op).byte ∧
      s.image[t.code + 1]? = some (UInt8.ofNat ((s.target name).toNat / 0x100)) ∧
      s.image[t.code + 2]? = some (UInt8.ofNat (s.target name).toNat) := by
  have hplaced := h.showing.intact h.records.size ht
  rw [← h.records.target] at hplaced
  have halone : ∀ addr, (Action.emit p (.branch op name)).Alone s addr := by
    intro addr
    have hend := h.records.data
    simp only [hdata, List.length_nil] at hend
    simp only [Action.Alone, hend]
    omega
  have hbyte : ∀ byte k, ((Instruction.branch op name).map s.target).encode[k]? = some byte →
      s.image[t.code + k]? = some byte := by
    intro byte k hk
    refine hplaced (byte, t.code + k) ?_ (halone _)
    simpa [Action.placed, List.mk_mem_zipIdx_iff_le_and_getElem?_sub] using hk
  exact ⟨hbyte _ 0 rfl, hbyte _ 1 rfl, hbyte _ 2 rfl⟩

theorem wordOfBytes_target (name : String) {addr : Nat} (h : s.labels[name]? = some addr) :
    wordOfBytes (UInt8.ofNat ((s.target name).toNat / 0x100)) (UInt8.ofNat (s.target name).toNat) =
      addr % 0x10000 := by
  simp only [wordOfBytes, State.target, h, Option.getD_some, UInt16.toNat_ofNat', UInt8.toNat_ofNat']
  omega

/-- Some halts, a jump to the label at the very end, and this label. -/
def jumpToEnd (n : Nat) : List Char :=
  (List.replicate n "HLT\n".toList).flatten ++ "JMP L\nL:\n".toList

theorem statements_jumpToEnd (n : Nat) : statements (jumpToEnd n) =
    List.replicate n (.instruction .hlt ()) ++ [.instruction (.branch .jmp) ("L", ()), .label "L"] := by
  have hname : IsName "L".toList := ⟨'L', [], rfl, by decide, by simp⟩
  have hgap : SpaceRun [' '] := ⟨by simp, by simp; decide⟩
  have hline : Separator ['\n'] := .blank (.space (by decide))
  have hjump : Statement.Matches (.instruction (.branch .jmp) ("L", ())) ['J', 'M', 'P', ' ', 'L'] :=
    ⟨_, ⟨[' '], ['L'], [], rfl, hgap, ⟨hname, rfl⟩, rfl⟩, rfl⟩
  have hlabel : Statement.Matches (.label "L") ['L', ':'] := ⟨hname, rfl⟩
  have htail : Lists [.instruction (.branch .jmp) ("L", ()), .label "L"] "JMP L\nL:\n".toList :=
    .cons hjump hline (.cons hlabel hline .nil)
  rw [jumpToEnd, (written_halts n).lists.statements_append, htail.statements, List.map_replicate]
  rfl

theorem assemble_jumpToEnd {n : Nat} (hn : n + 3 ≤ 0x10000) :
    let o := (fresh.withText (jumpToEnd n)).program.andThen State.resolve
    o.fault = none ∧ (Outcome.forEach execute fresh
        (List.replicate n (.instruction .hlt ()))).state.code = n ∧
      o.state.labels["L"]? = some (n + 3) := by
  intro o
  obtain ⟨halts, hhalts⟩ : ∃ halts : List Action, halts = List.replicate n (.emit .add .hlt) := ⟨_, rfl⟩
  obtain ⟨as, has⟩ : ∃ as : List Action, as = halts ++ [.emit .add (.branch .jmp "L")] := ⟨_, rfl⟩
  have hlen : (Layout.draft halts).length = n := by simp [hhalts, draft_halts]
  have hfront := @actions_replicate (.instruction .hlt ()) (.emit .add .hlt) rfl n
  rw [← hhalts] at hfront
  have hactions : HasActions ([jumpToEnd n].flatMap statements) (as ++ [.define "L"]) := by
    rw [List.flatMap_singleton, statements_jumpToEnd, has, List.append_assoc]
    exact List.rel_append hfront (.cons rfl (.cons rfl .nil))
  have hdraft : (Layout.draft as).length = n + 3 := by simp [has, hlen]; rfl
  have hdata : Layout.data (as ++ [.define "L"]) = [] := by
    simp [has, hhalts, data_halts, Action.data]
  have hf : (Outcome.forEach State.perform fresh (as ++ [.define "L"])).fault = none := by
    apply shows_fresh.fault_forEach_of_no_data _ hdata
    simp [hdraft, Action.draft, fresh]
    omega
  have haddress : Layout.address? (as ++ [.define "L"]) "L" = some (n + 3) := by
    simp [Layout.address?_concat, Layout.definition?, hdraft]
  have hrefs : Layout.references (as ++ [.define "L"]) = [⟨"L", n⟩] := by
    have hnone : Layout.references halts = [] := by
      rw [hhalts]
      exact references_halts 0 n
    rw [has, Layout.references_append, Layout.references_append, hnone, hlen]
    rfl
  obtain ⟨hfault, hass⟩ := assembled_of_performed hactions hf (by simp [hrefs, haddress])
  rw [programs_singleton] at hfault hass
  refine ⟨hfault, ?_, (hass.records.labels "L").trans haddress⟩
  have hhalted : (Outcome.forEach State.perform fresh halts).fault = none := by
    simp only [has, List.append_assoc, Outcome.forEach_append _ fresh halts] at hf
    exact (Outcome.fault_andThen_eq_none_iff.1 hf).1
  have hrecords := records_fresh.forEach hhalted
  rw [← forEach_execute_of_actions hfront] at hrecords
  exact hrecords.code.trans hlen

/-- In a program without strings that has succeeded, every branch holds the address of its label modulo
`0x10000`. This is the address itself exactly if the label has less than `0x10000` bytes of code before
it. -/
theorem branch_holds_word
    (hf : ((fresh.withText text).program.andThen State.resolve).fault = none)
    (hdata : ∀ body, .data body ∉ statements text) {before after : List Statement} {op : BranchOp}
    {name : String}
    (hsplit : statements text = before ++ .instruction (.branch op) (name, ()) :: after) :
    let s := ((fresh.withText text).program.andThen State.resolve).state
    let place := (Outcome.forEach execute fresh before).state.code
    ∃ addr hi lo, s.labels[name]? = some addr ∧ addr ≤ s.code ∧ s.code ≤ s.image.size ∧
      s.image[place]? = some (Opcode.branch op).byte ∧
      s.image[place + 1]? = some hi ∧ s.image[place + 2]? = some lo ∧
      wordOfBytes hi lo = addr % 0x10000 ∧ (wordOfBytes hi lo = addr ↔ addr < 0x10000) := by
  rw [← programs_singleton] at hf ⊢
  intro s place
  obtain ⟨as, h⟩ := exists_assembled hf
  have has := h.actions
  rw [List.flatMap_singleton] at has
  have hnone := Layout.data_eq_nil_of_actions has hdata
  obtain ⟨bs, a, cs, rfl, ha, ht⟩ := h.split hsplit
  obtain rfl : Action.emit .add (.branch op name) = a := Except.ok.inj ha
  obtain ⟨addr, haddr⟩ := h.defined ⟨name, (Layout.draft bs).length⟩ (by
    rw [Layout.references_append]
    exact List.mem_append_right _ List.mem_cons_self)
  have hlabel : s.labels[name]? = some addr := (h.records.labels name).trans haddr
  obtain ⟨hop, hhi, hlo⟩ := h.branch_bytes ht hnone
  have hword := wordOfBytes_target name hlabel
  refine ⟨addr, _, _, hlabel, ?_, ?_, hop, hhi, hlo, hword, ?_⟩
  · rw [h.records.code]
    exact Layout.address?_le haddr
  · have hle := h.showing.image.left_le
    rwa [Nat.zero_add, ← h.showing.code_eq] at hle
  · rw [hword]
    exact Nat.mod_eq_iff_lt (by decide)

/-- The farthest label that a branch can hold: the jump ends one byte before the end of the image. -/
theorem branch_holds_word_last :
    let text := jumpToEnd 0xFFFC
    let s := ((fresh.withText text).program.andThen State.resolve).state
    ((fresh.withText text).program.andThen State.resolve).fault = none ∧
      (∀ body, .data body ∉ statements text) ∧
      statements text = List.replicate 0xFFFC (.instruction .hlt ()) ++
        .instruction (.branch .jmp) ("L", ()) :: [.label "L"] ∧
      ∃ hi lo, s.labels["L"]? = some 0xFFFF ∧ s.image[0xFFFD]? = some hi ∧
        s.image[0xFFFE]? = some lo ∧ wordOfBytes hi lo = 0xFFFF := by
  obtain ⟨n, hn⟩ : ∃ n, n = 0xFFFC := ⟨_, rfl⟩
  rw [← hn, show 0xFFFD = n + 1 by omega, show 0xFFFE = n + 2 by omega, show 0xFFFF = n + 3 by omega]
  obtain ⟨hf, hplace, hlabel⟩ := @assemble_jumpToEnd n (by omega)
  have hsplit := statements_jumpToEnd n
  have hdata : ∀ body, .data body ∉ statements (jumpToEnd n) := by
    intro body
    simp [hsplit]
  obtain ⟨addr, hi, lo, haddr, _, _, _, hhi, hlo, _, hiff⟩ := branch_holds_word hf hdata hsplit
  obtain rfl : n + 3 = addr := Option.some.inj (hlabel.symm.trans haddr)
  rw [hplace] at hhi hlo
  exact ⟨hf, hdata, hsplit, hi, lo, hlabel, hhi, hlo, hiff.2 (by omega)⟩

/-- A jump that ends the image cannot hold the address behind it. -/
theorem branch_not_always_address :
    ¬ ∀ (text : List Char) (before after : List Statement) (op : BranchOp) (name : String),
      ((fresh.withText text).program.andThen State.resolve).fault = none →
      (∀ body, .data body ∉ statements text) →
      statements text = before ++ .instruction (.branch op) (name, ()) :: after →
      let s := ((fresh.withText text).program.andThen State.resolve).state
      let place := (Outcome.forEach execute fresh before).state.code
      ∃ addr hi lo, s.labels[name]? = some addr ∧ s.image[place + 1]? = some hi ∧
        s.image[place + 2]? = some lo ∧ wordOfBytes hi lo = addr := by
  intro h
  obtain ⟨n, hn⟩ : ∃ n, n = 0xFFFD := ⟨_, rfl⟩
  obtain ⟨hf, _, hlabel⟩ := @assemble_jumpToEnd n (by omega)
  have hsplit := statements_jumpToEnd n
  obtain ⟨addr, hi, lo, haddr, _, _, hword⟩ :=
    h (jumpToEnd n) _ _ _ _ hf (by intro body; simp [hsplit]) hsplit
  obtain rfl : n + 3 = addr := Option.some.inj (hlabel.symm.trans haddr)
  have hlt := wordOfBytes_lt hi lo
  omega

end State

end ByteAsm
