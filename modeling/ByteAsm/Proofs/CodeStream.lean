import ByteAsm.Proofs.Correctness
import ByteAsm.Proofs.Integrity
import ByteAsm.Proofs.Naming

/-! The places of labels and instructions in the code. An instruction starts where the ones before it
end, with one exception: a no-operation puts its byte behind the image and takes no place in the code,
so that everything behind it stands one byte too low. -/
namespace ByteAsm

open Source Text

namespace Opcode

/-- The number of bytes between an instruction and the one behind it. -/
def stride : Opcode → Nat
  | nop => 0
  | op => op.size

theorem stride_of_ne {op : Opcode} (h : op ≠ .nop) : op.stride = op.size := by
  cases op with
  | nop => exact absurd rfl h
  | _ => rfl

end Opcode

namespace Source

/-- Labels, and instructions whose numbers can be taken, the no-operation among them. -/
def Statement.Valid : Statement → Prop
  | .label _ => True
  | .instruction op operands => Operands.Valid op.slots operands
  | .data _ | .unknown _ => False

/-- The code that a statement takes up if an instruction takes up `size` bytes. -/
def Statement.width (size : Opcode → Nat) : Statement → Nat
  | instruction op _ => size op
  | _ => 0

def extent (size : Opcode → Nat) (list : List Statement) : Nat :=
  (list.map (Statement.width size)).sum

end Source

/-- White space, which may be missing at the end of a text only. -/
def SpaceOrEnd (gap rest : List Char) : Prop :=
  (∀ c ∈ gap, isSpace c = true) ∧ (gap = [] → rest = [])

/-- Labels and instructions with white space between them. -/
structure Stream (list : List Statement) (text : List Char) : Prop where
  listed : Listed SpaceOrEnd list (dropSpace text)
  valid : ∀ statement ∈ list, statement.Valid

/-- Each instruction starts, and each label stands, at the sum of the sizes of the instructions before
it. Of the definitions of one label the last one counts. -/
structure State.Laid (size : Opcode → Nat) (list : List Statement) (s : State) : Prop where
  instruction : ∀ before op operands after, list = before ++ .instruction op operands :: after →
    ∃ i, (Statement.instruction op operands).Denotes (s.labels[·]?) i ∧
      ∀ k < size op, s.image[extent size before + k]? = i.encode[k]?
  label : ∀ before name after, list = before ++ .label name :: after → .label name ∉ after →
    s.labels[name]? = some (extent size before)
  finish : s.code = extent size list

section

variable {list : List Statement} {text : List Char} {as : List Action} {size other : Opcode → Nat}

theorem extent_append (size : Opcode → Nat) (before after : List Statement) :
    extent size (before ++ after) = extent size before + extent size after := by
  simp [extent]

theorem extent_congr (h : ∀ op operands, .instruction op operands ∈ list → other op = size op) :
    extent other list = extent size list := by
  unfold extent
  congr 1
  apply List.map_congr_left
  intro statement hmem
  cases statement with
  | instruction op operands => exact h op operands hmem
  | _ => rfl

theorem extent_size (list : List Statement) :
    extent Opcode.size list = extent Opcode.stride list + list.countP Statement.isNop := by
  induction list with
  | nil => rfl
  | cons statement list ih =>
    have hone : statement.width Opcode.size =
        statement.width Opcode.stride + [statement].countP Statement.isNop := by
      cases statement with
      | instruction op operands => cases op <;> rfl
      | _ => rfl
    rw [← List.singleton_append, extent_append, extent_append, List.countP_append, ih]
    simp only [extent, List.map_singleton, List.sum_singleton]
    omega

theorem Source.Statement.length_draft_of_action {statement : Statement} {a : Action}
    (h : statement.action = .ok a) : a.draft.length = statement.width Opcode.stride := by
  cases acts_of_action h with
  | label | data | nop | unknown => rfl
  | @instruction op operands i hop hi =>
    rw [width, Opcode.stride_of_ne hop, ← Opcode.opcode_of_instruction hi]
    exact i.length_draft

theorem length_draft_of_actions (h : HasActions list as) :
    (Layout.draft as).length = extent Opcode.stride list := by
  induction h with
  | nil => rfl
  | @cons statement a list as ha _ ih =>
    rw [Layout.draft_cons, List.length_append, ih, Statement.length_draft_of_action ha]
    rfl

theorem Source.Statement.Valid.exists_action {statement : Statement} (h : statement.Valid) :
    ∃ a, statement.action = .ok a := by
  cases statement with
  | label name => exact ⟨.define name, rfl⟩
  | instruction op operands =>
    obtain ⟨i, hi⟩ := Opcode.exists_instruction (Operands.Valid.readable h)
    exact ⟨Action.ofInstruction i, by rw [action_instruction, hi]⟩
  | data body | unknown token => cases h

theorem matches_nop : Statement.Matches (.instruction .nop ()) ['N', 'O', 'P'] := ⟨[], rfl, rfl⟩

namespace Stream

theorem statements (h : Stream list text) : Source.statements text = list := by
  have hlisted : Source.statements (dropSpace text ++ []) = list ++ Source.statements [] := by
    refine h.listed.statements_append ?_
    rintro gap tail ⟨hspace, hend⟩
    cases gap with
    | nil =>
      rw [hend rfl]
      exact ⟨by simp [Breaks], rfl⟩
    | cons c gap =>
      have hrun : SpaceRun (c :: gap) := ⟨by simp, hspace⟩
      exact ⟨hrun.breaks _, hrun.separator.skipBlanks_append _⟩
  rw [List.append_nil, statements_nil, List.append_nil] at hlisted
  rw [← statements_congr (skipBlanks_dropSpace text), hlisted]

/-- Labels and instructions that fit in the lower half of the image are assembled. -/
theorem assembled (h : Stream list text)
    (hdef : ∀ name ∈ list.filterMap Statement.branchesTo?, .label name ∈ list)
    (hlen : extent Opcode.size list ≤ 0x8000) :
    let o := (State.fresh.withText text).program.andThen State.resolve
    o.fault = none ∧ ∃ as, HasActions list as ∧ (Layout.draft as).length ≤ 0x8000 ∧
      State.Assembled [text] as o.state := by
  intro o
  obtain ⟨as, has⟩ : ∃ as, HasActions list as :=
    exists_forall₂ fun statement hmem => (h.valid statement hmem).exists_action
  have hdata : Layout.data as = [] :=
    Layout.data_eq_nil_of_actions has fun body hmem => h.valid (.data body) hmem
  have hcode : (Layout.draft as).length ≤ 0x8000 := by
    rw [extent_size] at hlen
    rw [length_draft_of_actions has]
    omega
  have hlabels : ∀ r ∈ Layout.references as, ∃ addr, Layout.address? as r.label = some addr := by
    intro r hr
    have hname : r.label ∈ list.filterMap Statement.branchesTo? := by
      rw [← Layout.map_located (fun _ _ addr h => Statement.reference?_of_action h addr) has]
      exact List.mem_map_of_mem hr
    apply Option.ne_none_iff_exists'.1
    rw [Ne, Layout.address?_eq_none_iff_of_actions has, not_not]
    exact List.mem_filterMap.2 ⟨_, hdef _ hname, rfl⟩
  have hstatements : HasActions ([text].flatMap Source.statements) as := by
    rwa [List.flatMap_singleton, h.statements]
  obtain ⟨hf, hass⟩ := State.assembled_of_actions hstatements hcode (by simp [hdata]) hlabels
  rw [State.programs_singleton] at hf hass
  exact ⟨hf, as, has, hcode, hass⟩

end Stream

namespace State

variable {s : State}

theorem Laid.congr (h : s.Laid size list)
    (hsame : ∀ op operands, .instruction op operands ∈ list → other op = size op) :
    s.Laid other list where
  instruction := by
    rintro before op operands after rfl
    obtain ⟨i, hi, hbytes⟩ := h.instruction before op operands after rfl
    refine ⟨i, hi, ?_⟩
    rw [hsame op operands (by simp), extent_congr fun op operands hop => hsame op operands (by simp [hop])]
    exact hbytes
  label := by
    rintro before name after rfl hlast
    rw [extent_congr fun op operands hop => hsame op operands (by simp [hop])]
    exact h.label before name after rfl hlast
  finish := h.finish.trans (extent_congr hsame).symm

theorem Assembled.code_byte {bs cs : List Action} {p : Placement} {i : Instruction String}
    (h : Assembled [text] (bs ++ .emit p i :: cs) s)
    (hlen : (Layout.draft (bs ++ .emit p i :: cs)).length ≤ 0x8000) {k : Nat}
    (hk : k < i.opcode.size) :
    s.image[(Layout.draft bs).length + k]? =
      (i.map (Layout.target (bs ++ .emit p i :: cs))).encode[k]? := by
  generalize ht : Layout.target (bs ++ .emit p i :: cs) = target
  have hshow := h.showing
  rw [ht] at hshow
  have hcode := h.records.code
  have hfit : (Layout.draft bs).length + k < s.code := by
    rw [hcode, Layout.draft_append, Layout.draft_cons, List.length_append, List.length_append]
    simp only [Action.draft, i.length_draft]
    omega
  rw [hshow.code_byte _ hfit (.inl (by omega)), Layout.code_append, Layout.code_cons,
    ← Layout.length_code target]
  rw [List.getElem?_append_right (Nat.le_add_right _ _), Nat.add_sub_cancel_left]
  apply List.getElem?_append_left
  simpa only [Action.code, Instruction.length_encode, Instruction.opcode_map] using hk

/-- In an assembled program every label and every instruction is where the strides put it. -/
theorem Assembled.laid (h : Assembled [text] as s) (has : HasActions list as)
    (hlen : (Layout.draft as).length ≤ 0x8000) : s.Laid Opcode.stride list where
  instruction := by
    rintro before op operands after rfl
    obtain ⟨bs, rest, rfl, hbs, hrest⟩ := HasActions.split has
    rw [← length_draft_of_actions hbs]
    cases hrest with
    | @cons _ a _ cs ha _ =>
      cases Statement.acts_of_action ha with
      | nop => exact ⟨.nop, ⟨rfl, rfl⟩, fun k hk => absurd hk (Nat.not_lt_zero k)⟩
      | @instruction _ _ i hop hi =>
        refine ⟨_, Opcode.denotes_of_instruction hi ?_, fun k hk => h.code_byte hlen ?_⟩
        · intro name hname
          have hmem : ((Layout.draft bs).length, i) ∈
              Layout.instructions (bs ++ .emit i.placement i :: cs) := by
            rw [Layout.instructions, Layout.located_append, Nat.zero_add, List.filterMap_append]
            exact List.mem_append_right _ List.mem_cons_self
          rw [h.records.labels]
          exact Layout.address?_eq_target h.defined (by omega) hmem hname
        · rwa [Opcode.opcode_of_instruction hi, ← Opcode.stride_of_ne hop]
  label := by
    rintro before name after rfl hlast
    obtain ⟨bs, rest, rfl, hbs, hrest⟩ := HasActions.split has
    cases hrest with
    | @cons _ a _ cs ha hcs =>
      cases ha
      have hlater : name ∉ after.filterMap Statement.defines? := by
        intro hmem
        obtain ⟨statement, hstatement, hname⟩ := List.mem_filterMap.1 hmem
        cases statement with
        | label other =>
          cases hname
          exact hlast hstatement
        | _ => cases hname
      rw [h.records.labels, List.append_cons, Layout.address?_append_of_actions hcs hlater,
        Layout.address?_concat, Layout.definition?, if_pos rfl, length_draft_of_actions hbs]
  finish := h.records.code.trans (length_draft_of_actions has)

end State

/-- Labels and instructions whose code fits in the lower half of the image, with no branch to a label that
is missing, are assembled without a fault. Each of them is at the sum of the strides before it, and the
image is longer by one byte for each no-operation. So all of them are at the sum of the sizes before them
exactly if no instruction is a no-operation. -/
theorem assemble_stream (h : Stream list text)
    (hdef : ∀ name ∈ list.filterMap Statement.branchesTo?, .label name ∈ list)
    (hlen : extent Opcode.size list ≤ 0x8000) :
    let o := (State.fresh.withText text).program.andThen State.resolve
    o.fault = none ∧ o.state.Laid Opcode.stride list ∧
      o.state.image.size = 0x10000 + list.countP Statement.isNop ∧
      (o.state.Laid Opcode.size list ↔ list.countP Statement.isNop = 0) := by
  intro o
  obtain ⟨hf, as, has, hcode, hass⟩ := h.assembled hdef hlen
  have hlaid := hass.laid has hcode
  refine ⟨hf, hlaid, ?_, ?_, ?_⟩
  · rw [← Layout.pads_of_actions has]
    exact hass.records.size
  · intro hsize
    have hends := hsize.finish.symm.trans hlaid.finish
    rw [extent_size] at hends
    omega
  · intro hnone
    apply hlaid.congr
    intro op operands hmem
    have hnop := List.countP_eq_zero.1 hnone _ hmem
    exact (Opcode.stride_of_ne (by simpa [Statement.isNop] using hnop)).symm

/-- A label behind a no-operation is taken to stand at the start, and a branch goes there. -/
theorem assemble_stream_nop_label :
    let list := [.instruction .nop (), .label "A", .instruction (.branch .jmp) ("A", ())]
    let text := "NOP A:\nJMP A".toList
    let o := (State.fresh.withText text).program.andThen State.resolve
    Stream list text ∧ o.fault = none ∧ o.state.labels["A"]? = some 0 ∧
      o.state.image.size = 0x10001 ∧ o.state.code = 3 ∧ ¬ o.state.Laid Opcode.size list := by
  -- the outcome stays as it is written, so that no comparison of two such terms runs the program
  intro list text
  have hname : IsName "A".toList := ⟨'A', [], rfl, by decide, by simp⟩
  have hgap : SpaceRun [' '] := ⟨by simp, by simp; decide⟩
  have hlabel : Statement.Matches (.label "A") ['A', ':'] := ⟨hname, rfl⟩
  have hjmp : Statement.Matches (.instruction (.branch .jmp) ("A", ())) ['J', 'M', 'P', ' ', 'A'] :=
    ⟨_, ⟨[' '], ['A'], [], rfl, hgap, ⟨hname, rfl⟩, rfl⟩, rfl⟩
  have hspace : ∀ {rest}, SpaceOrEnd [' '] rest := ⟨hgap.2, by simp⟩
  have hline : ∀ {rest}, SpaceOrEnd ['\n'] rest := ⟨List.all_eq_true.1 (by decide), by simp⟩
  have hend : SpaceOrEnd [] [] := ⟨by simp, fun _ => rfl⟩
  have hlast := Listed.cons hjmp hend .nil
  have h : Stream list text :=
    ⟨.cons matches_nop hspace (.cons hlabel hline hlast),
      by simp [list, Statement.Valid, Operands.Valid, Slot.Valid]⟩
  obtain ⟨hf, hlaid, hsize, hiff⟩ := assemble_stream h (by simp [list, Statement.branchesTo?]) (by decide)
  refine ⟨h, hf, ?_, hsize, hlaid.finish, ?_⟩
  · exact hlaid.label [.instruction .nop ()] "A" _ rfl (by simp)
  · rw [hiff]
    decide

/-- A no-operation is not put into the code like other instructions of one byte. -/
theorem stream_not_always_in_place :
    ¬ ∀ (list : List Statement) (text : List Char), Stream list text →
      (∀ name ∈ list.filterMap Statement.branchesTo?, .label name ∈ list) →
      extent Opcode.size list ≤ 0x8000 →
      let o := (State.fresh.withText text).program.andThen State.resolve
      o.state.Laid Opcode.size list ∧ o.state.image.size = 0x10000 := by
  intro hall
  have hhlt : Statement.Matches (.instruction .hlt ()) ['H', 'L', 'T'] := ⟨[], rfl, rfl⟩
  have hline : ∀ {rest}, SpaceOrEnd ['\n'] rest := ⟨List.all_eq_true.1 (by decide), by simp⟩
  have h : Stream [.instruction .nop (), .instruction .hlt ()] "NOP\nHLT\n".toList :=
    ⟨.cons matches_nop hline (.cons hhlt hline .nil), by simp [Statement.Valid, Operands.Valid]⟩
  have hdef : ∀ name ∈ [.instruction .nop (), .instruction .hlt ()].filterMap Statement.branchesTo?,
      .label name ∈ [Statement.instruction .nop (), .instruction .hlt ()] := by
    simp [Statement.branchesTo?]
  have hlen : extent Opcode.size [.instruction .nop (), .instruction .hlt ()] ≤ 0x8000 := by decide
  obtain ⟨_, as, has, _, hass⟩ := h.assembled hdef hlen
  have hsize := hass.records.size
  rw [Layout.pads_of_actions has, (hall _ _ h hdef hlen).2] at hsize
  exact absurd hsize (by decide)

end

end ByteAsm
