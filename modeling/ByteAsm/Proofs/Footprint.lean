import ByteAsm.Proofs.Growth

/-! The marks that one step leaves on a state, whether it comes to its end or is stopped. A step touches
the image between an old and a new address only, and when it is stopped, what is there is either nothing
at all or the first bytes of one statement. -/
namespace ByteAsm

open Source

namespace Image

variable {p : Placement} {old image : Image} {addr k : Nat} {bytes : List UInt8}

/-- The first `k` of some bytes have been placed from an address on, each on the byte that the old image
has there, and no other byte has changed. -/
structure PlacedFirst (p : Placement) (old image : Image) (addr : Nat) (bytes : List UInt8) (k : Nat) :
    Prop where
  size : image.size = old.size
  stored : ∀ j < k, ∃ byte before after, bytes[j]? = some byte ∧ old[addr + j]? = some before ∧
    p.combine? before byte = some after ∧ image[addr + j]? = some after
  kept : ∀ i, i < addr ∨ addr + k ≤ i → image[i]? = old[i]?

/-- Why a byte cannot be placed at an address: the image ends before it, or the sum with the byte that is
there does not fit in a byte. -/
def Refuses (p : Placement) (image : Image) (addr : Nat) (byte : UInt8) : Fault → Prop
  | .outside => image.size ≤ addr
  | .overflow => ∃ before, image[addr]? = some before ∧ p.combine? before byte = none

theorem placedFirst_zero (p : Placement) (image : Image) (addr : Nat) (bytes : List UInt8) :
    PlacedFirst p image image addr bytes 0 :=
  ⟨rfl, fun _ hj => absurd hj (Nat.not_lt_zero _), fun _ _ => rfl⟩

theorem PlacedFirst.cons {b v : UInt8} (hlt : addr < old.size) (hv : p.combine? old[addr] b = some v)
    (h : PlacedFirst p (old.set addr v) image (addr + 1) bytes k) :
    PlacedFirst p old image addr (b :: bytes) (k + 1) where
  size := by rw [h.size, Array.size_set]
  stored := by
    intro j hj
    cases j with
    | zero =>
      refine ⟨b, old[addr], v, rfl, Array.getElem?_eq_getElem hlt, hv, ?_⟩
      rw [Nat.add_zero, h.kept addr (.inl (Nat.lt_succ_self addr)), Array.getElem?_set_self hlt]
    | succ j =>
      obtain ⟨byte, before, after, hbyte, hbefore, hafter, himage⟩ := h.stored j (by omega)
      rw [Array.getElem?_set_ne hlt (by omega)] at hbefore
      rw [show addr + (j + 1) = addr + 1 + j by omega]
      exact ⟨byte, before, after, hbyte, hbefore, hafter, himage⟩
  kept := by
    intro i hi
    rw [h.kept i (by omega), Array.getElem?_set_ne hlt (by omega)]

/-- The placing of bytes comes as far as some byte, and if it is stopped there, this byte is refused. -/
theorem exists_placedFirst (p : Placement) (image : Image) (addr : Nat) (bytes : List UInt8) :
    ∃ k, (place p image addr bytes).next = addr + k ∧
      PlacedFirst p image (place p image addr bytes).image addr bytes k ∧
      ∀ f, (place p image addr bytes).fault = some f →
        ∃ hk : k < bytes.length, image.Refuses p (addr + k) bytes[k] f := by
  induction bytes generalizing image addr with
  | nil => exact ⟨0, rfl, placedFirst_zero p image addr [], fun f hf => by cases hf⟩
  | cons b bytes ih =>
    rcases Nat.lt_or_ge addr image.size with hlt | hge
    · cases hv : p.combine? image[addr] b with
      | none =>
        rw [place_cons_overflow hlt hv]
        refine ⟨0, rfl, placedFirst_zero .., ?_⟩
        rintro f ⟨⟩
        exact ⟨Nat.succ_pos _, image[addr], Array.getElem?_eq_getElem hlt, hv⟩
      | some v =>
        obtain ⟨k, hnext, hplaced, hstop⟩ := ih (image.set addr v) (addr + 1)
        rw [place_cons_some hlt hv]
        refine ⟨k + 1, by rw [hnext]; omega, hplaced.cons hlt hv, ?_⟩
        intro f hf
        obtain ⟨hk, hrefuses⟩ := hstop f hf
        refine ⟨Nat.succ_lt_succ hk, ?_⟩
        rw [show addr + (k + 1) = addr + 1 + k by omega]
        cases f with
        | outside => simpa [Refuses] using hrefuses
        | overflow =>
          obtain ⟨before, hbefore, hnone⟩ := hrefuses
          rw [Array.getElem?_set_ne hlt (by omega)] at hbefore
          exact ⟨before, hbefore, hnone⟩
    · rw [place_cons_outside hge]
      refine ⟨0, rfl, placedFirst_zero .., ?_⟩
      rintro f ⟨⟩
      exact ⟨Nat.succ_pos _, hge⟩

end Image

/-- The faults that lie in the text of a statement: a number or a string that cannot be read. -/
def Fault.ofText : Fault → Bool
  | numeral _ | escape _ | ascii _ => true
  | _ => false

/-- An instruction or a string of which only the first `k` bytes have been placed, because the next one
is refused. Beyond this, the address has moved behind these bytes, and a branch is among the references
already. -/
inductive Source.Statement.CutShort (s t : State) (f : Image.Fault) : Statement → Prop
  | code {op : Opcode} {operands : Operands op.slots} {i : Instruction String} {k : Nat}
      (hi : op.instruction operands = .ok i) (hk : k < i.draft.length)
      (hplaced : Image.PlacedFirst i.placement s.image t.image s.code i.draft k)
      (hrefuses : s.image.Refuses i.placement (s.code + k) i.draft[k] f)
      (hstate : t = { s with
        image := t.image, text := t.text, code := s.code + k
        references := i.refer s.code s.references }) :
      CutShort s t f (.instruction op operands)
  | data {body : List Char} {bytes : List UInt8} {k : Nat}
      (hbody : bodyBytes body = .ok bytes) (hk : k < bytes.length)
      (hplaced : Image.PlacedFirst .add s.image t.image s.data bytes k)
      (hrefuses : s.image.Refuses .add (s.data + k) bytes[k] f)
      (hstate : t = { s with image := t.image, text := t.text, data := s.data + k }) :
      CutShort s t f (.data body)

theorem Source.Statement.CutShort.retext {s t : State} {f : Image.Fault} {statement : Statement}
    (h : statement.CutShort s t f) (text : Option (List Char)) :
    statement.CutShort s { t with text := text } f := by
  cases h with
  | code hi hk hplaced hrefuses hstate =>
    refine .code hi hk hplaced hrefuses ?_
    rw [hstate]
  | data hbody hk hplaced hrefuses hstate =>
    refine .data hbody hk hplaced hrefuses ?_
    rw [hstate]

namespace State

variable {s : State} {a : Action} {statement : Statement}

/-- The footprint of a step that has found a statement or none. -/
structure Footprint (s : State) (found : Option Statement) (o : Outcome State) : Prop where
  /-- Bytes change between the old and the new address of the code or of the data only. -/
  kept : ∀ i < s.image.size, i < s.code ∨ o.state.code ≤ i → i < s.data ∨ o.state.data ≤ i →
    o.state.image[i]? = s.image[i]?
  /-- The image grows, by a zero byte, exactly if a no-operation was found. -/
  size : o.state.image.size = s.image.size + found.toList.countP Statement.isNop
  zero : ∀ i, s.image.size ≤ i → i < o.state.image.size → o.state.image[i]? = some 0
  /-- At least one of the two addresses stays. -/
  code_le : s.code ≤ o.state.code
  data_le : s.data ≤ o.state.data
  still : o.state.code = s.code ∨ o.state.data = s.data
  /-- A label is set to the address of the code, and neither of the addresses moves then. -/
  labels : found.bind Statement.defines? = none ∧ o.state.labels = s.labels ∨
    ∃ name, found.bind Statement.defines? = some name ∧
      o.state.labels = s.labels.insert name s.code ∧
      o.state.code = s.code ∧ o.state.data = s.data
  /-- A branch is appended to the references with the old address of the code. -/
  references : o.state.references.toList = s.references.toList ++
    ((found.bind Statement.branchesTo?).map (⟨·, s.code⟩)).toList
  /-- A fault in the text leaves all but the text as it was, and one in the image leaves a statement
  that is cut short. -/
  fault : ∀ f, o.fault = some f →
    f.ofText = true ∧ o.state = { s with text := o.state.text } ∨
    ∃ g statement, f = .image g ∧ found = some statement ∧ statement.CutShort s o.state g

theorem Footprint.retext {found : Option Statement} {o : Outcome State} (h : s.Footprint found o)
    (text : Option (List Char)) : s.Footprint found (o.retext text) := by
  refine ⟨h.kept, h.size, h.zero, h.code_le, h.data_le, h.still, h.labels, h.references, ?_⟩
  intro f hf
  rcases h.fault f hf with ⟨htext, hstate⟩ | ⟨g, statement, rfl, hfound, hcut⟩
  · refine .inl ⟨htext, ?_⟩
    simp only [Outcome.retext]
    rw [hstate]
  · exact .inr ⟨g, statement, rfl, hfound, hcut.retext text⟩

theorem footprint_of_still {found : Option Statement} {o : Outcome State}
    (himage : o.state.image = s.image) (hcode : o.state.code = s.code) (hdata : o.state.data = s.data)
    (hnop : found.toList.countP Statement.isNop = 0)
    (hlabels : found.bind Statement.defines? = none ∧ o.state.labels = s.labels ∨
      ∃ name, found.bind Statement.defines? = some name ∧
        o.state.labels = s.labels.insert name s.code)
    (hreferences : o.state.references.toList = s.references.toList ++
      ((found.bind Statement.branchesTo?).map (⟨·, s.code⟩)).toList)
    (hfault : ∀ f, o.fault = some f → f.ofText = true ∧ o.state = { s with text := o.state.text }) :
    s.Footprint found o where
  kept := by
    intro i _ _ _
    rw [himage]
  size := by rw [himage, hnop, Nat.add_zero]
  zero := by
    intro i hge hlt
    rw [himage] at hlt
    omega
  code_le := Nat.le_of_eq hcode.symm
  data_le := Nat.le_of_eq hdata.symm
  still := .inl hcode
  labels := by
    rcases hlabels with hnone | ⟨name, hname, hset⟩
    · exact .inl hnone
    · exact .inr ⟨name, hname, hset, hcode, hdata⟩
  references := hreferences
  fault := fun f hf => .inl (hfault f hf)

theorem references_perform_of_action (s : State) (h : statement.action = .ok a) :
    (s.perform a).state.references.toList = s.references.toList ++
      (statement.branchesTo?.map (⟨·, s.code⟩)).toList := by
  rw [references_perform, ← Statement.reference?_of_action h s.code]
  cases hr : Layout.reference? (s.code, a) with
  | none => rfl
  | some r =>
    rw [← (offset_of_reference? hr).1]
    rfl

theorem footprint_emit {op : Opcode} {operands : Operands op.slots} {i : Instruction String}
    (s : State) (hop : op ≠ .nop) (hi : op.instruction operands = .ok i)
    (ha : (Statement.instruction op operands).action = .ok (.emit i.placement i)) :
    s.Footprint (some (.instruction op operands)) (s.perform (.emit i.placement i)) := by
  have hreferences := references_perform_of_action s ha
  obtain ⟨k, hnext, hplaced, hstop⟩ := Image.exists_placedFirst i.placement s.image s.code i.draft
  rw [perform_emit] at hreferences ⊢
  refine ⟨?_, ?_, ?_, Image.le_next_place .., Nat.le_refl _, .inr rfl, .inl ⟨rfl, rfl⟩, hreferences, ?_⟩
  · intro j _ hcode _
    rw [hnext] at hcode
    exact hplaced.kept j hcode
  · simp [hplaced.size, Statement.isNop, hop]
  · intro j hge hlt
    rw [hplaced.size] at hlt
    omega
  · intro f hf
    obtain ⟨g, hg, rfl⟩ := Option.map_eq_some_iff.1 hf
    obtain ⟨hk, hrefuses⟩ := hstop g hg
    exact .inr ⟨g, _, rfl, rfl, .code hi hk hplaced hrefuses (by rw [hnext])⟩

theorem footprint_store {body : List Char} {bytes : List UInt8} (s : State)
    (hbody : bodyBytes body = .ok bytes) :
    s.Footprint (some (.data body)) (s.perform (.store .add bytes)) := by
  obtain ⟨k, hnext, hplaced, hstop⟩ := Image.exists_placedFirst .add s.image s.data bytes
  rw [perform_store]
  refine ⟨?_, hplaced.size, ?_, Nat.le_refl _, Image.le_next_place .., .inl rfl, .inl ⟨rfl, rfl⟩,
    (List.append_nil _).symm, ?_⟩
  · intro j _ _ hdata
    rw [hnext] at hdata
    exact hplaced.kept j hdata
  · intro j hge hlt
    rw [hplaced.size] at hlt
    omega
  · intro f hf
    obtain ⟨g, hg, rfl⟩ := Option.map_eq_some_iff.1 hf
    obtain ⟨hk, hrefuses⟩ := hstop g hg
    exact .inr ⟨g, _, rfl, rfl, .data hbody hk hplaced hrefuses (by rw [hnext])⟩

theorem footprint_pad (s : State) : s.Footprint (some (.instruction .nop ())) (s.perform .pad) := by
  rw [perform_pad]
  refine ⟨?_, Array.size_push .., ?_, Nat.le_refl _, Nat.le_refl _, .inl rfl, .inl ⟨rfl, rfl⟩,
    (List.append_nil _).symm, fun f hf => by cases hf⟩
  · intro j hj _ _
    rw [Array.getElem?_push, if_neg (by omega)]
  · intro j hge hlt
    rw [Array.size_push] at hlt
    rw [Array.getElem?_push, if_pos (by omega)]

/-- Labels, branches and no-operations have nothing in their text that could not be read. -/
theorem names_of_action_error {f : Fault} (h : statement.action = .error f) :
    statement.defines? = none ∧ statement.branchesTo? = none := by
  cases statement with
  | label name => cases h
  | instruction op operands =>
    cases op with
    | branch op => cases h
    | _ => exact ⟨rfl, rfl⟩
  | _ => exact ⟨rfl, rfl⟩

theorem footprint_of_action_error {f : Fault} (s : State) (h : statement.action = .error f) :
    s.Footprint (some statement) ⟨s, [], some f⟩ := by
  obtain ⟨hdefines, hbranches⟩ := names_of_action_error h
  have hnop := isNop_of_action_error h
  refine footprint_of_still rfl rfl rfl (by simp [hnop]) (.inl ⟨hdefines, rfl⟩)
    (by simp [hbranches]) ?_
  rintro g ⟨⟩
  obtain ⟨hkind, himage⟩ := Statement.action_error h
  cases f with
  | numeral | escape | ascii => exact ⟨rfl, rfl⟩
  | image g => exact absurd rfl (himage g)
  | _ => cases hkind

theorem footprint_execute (s : State) (statement : Statement) :
    s.Footprint (some statement) (s.execute statement) := by
  cases ha : statement.action with
  | error f =>
    rw [execute_of_error ha]
    exact footprint_of_action_error s ha
  | ok a =>
    rw [execute_of_ok ha]
    cases Statement.acts_of_action ha with
    | label name =>
      exact footprint_of_still rfl rfl rfl rfl (.inr ⟨name, rfl, rfl⟩) (List.append_nil _).symm
        fun f hf => by cases hf
    | unknown token =>
      exact footprint_of_still rfl rfl rfl rfl (.inl ⟨rfl, rfl⟩) (List.append_nil _).symm
        fun f hf => by cases hf
    | nop => exact footprint_pad s
    | data hbody => exact footprint_store s hbody
    | instruction hop hi => exact footprint_emit s hop hi ha

/-- Whatever the state and the text, and whether or not the step is stopped: the image changes between
the old and the new address of the code or of the data only, one of which has not moved, and a
no-operation puts a zero byte behind its end; a label is set to the address of the code; a branch is
appended with this address. A fault in the text has no other effect, and one in the image leaves exactly
the bytes before the one that is refused. -/
theorem step_footprint (s : State) (text : List Char) :
    s.Footprint (statements text).head? (s.withText text).step := by
  obtain ⟨left, he⟩ := step_withText s text
  rw [he]
  apply Footprint.retext
  cases statements text with
  | nil =>
    exact footprint_of_still rfl rfl rfl rfl (.inl ⟨rfl, rfl⟩) (List.append_nil _).symm
      fun f hf => by cases hf
  | cons statement rest =>
    rw [List.take_succ_cons, List.take_zero, Outcome.forEach_singleton]
    exact footprint_execute s statement

/-- A branch of three bytes in an image that has room for two of them: both are placed, and the reference
to the label stays. -/
theorem step_footprint_cut_branch :
    let s : State := ⟨#[0xF0, 0], none, 0, 1, ∅, #[]⟩
    let o := (s.withText "BEQ L".toList).step
    s.Footprint (some (.instruction (.branch .beq) ("L", ()))) o ∧ o.fault = some (.image .outside) ∧
      o.state.image = #[0xFC, 0] ∧ o.state.code = 2 ∧ o.state.references = #[⟨"L", 0⟩] := by
  intro s o
  have hread : Statement.read? (skipBlanks "BEQ L".toList) =
      some (.instruction (.branch .beq) ("L", ()), []) := by
    rw [skipBlanks_of_none rfl]
    rfl
  have hstep : o = (s.withText []).perform (.emit .add (.branch .beq "L")) :=
    stepWith_of_read _ rfl hread
  have hfoot := step_footprint s "BEQ L".toList
  rw [statements_of_read? hread] at hfoot
  refine ⟨hfoot, ?_⟩
  rw [hstep]
  exact ⟨rfl, rfl, rfl, rfl⟩

end State

end ByteAsm
