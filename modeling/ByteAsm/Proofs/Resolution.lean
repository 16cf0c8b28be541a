import ByteAsm.Assembly.Resolve
import ByteAsm.Proofs.Layout

/-! Resolving the references of a program turns the draft of its code into the code itself, and
does not change anything else. -/
namespace ByteAsm

theorem wordBytes_ofNat (n : Nat) : wordBytes (UInt16.ofNat n).toNat = wordBytes n := by
  simp only [wordBytes, UInt16.toNat_ofNat', List.cons.injEq, and_true]
  constructor <;> apply UInt8.toNat_inj.1 <;> simp only [UInt8.toNat_ofNat'] <;> omega

namespace Layout

variable {addr : Nat} {a : Action} {r : Reference}

def target (as : List Action) (name : String) : UInt16 := UInt16.ofNat ((address? as name).getD 0)

theorem code_of_reference?_none (target : String → UInt16) (h : reference? (addr, a) = none) :
    a.code target = a.draft := by
  cases a with
  | emit p i =>
    cases i with
    | branch op name => simp [reference?, instruction?, Instruction.target?] at h
    | _ => rfl
  | _ => rfl

theorem code_of_reference? (target : String → UInt16) (h : reference? (addr, a) = some r) :
    r.offset = addr ∧ ∃ b x y, a.draft = [b, x, y] ∧
      a.code target = b :: wordBytes (target r.label).toNat := by
  cases a with
  | emit p i =>
    cases i with
    | branch op name =>
      simp only [reference?, instruction?, Instruction.target?, Option.bind_some, Option.map_some,
        Option.some.injEq] at h
      subst r
      exact ⟨rfl, _, _, _, rfl, rfl⟩
    | _ => simp [reference?, instruction?, Instruction.target?] at h
  | _ => simp [reference?, instruction?] at h

/-- When every label is defined and the code is not longer than a word can count, a branch leads to
the address of its label. -/
theorem address?_eq_target {as : List Action}
    (hdef : ∀ r ∈ references as, ∃ addr, address? as r.label = some addr)
    (hcode : (draft as).length < 0x10000) {p : Nat × Instruction String}
    (hp : p ∈ instructions as) {name : String} (hn : p.2.target? = some name) :
    address? as name = some (target as name).toNat := by
  obtain ⟨addr, ha⟩ := hdef _ (mem_references hp hn)
  have hle := address?_le ha
  have hsmall : addr < 2 ^ 16 := by omega
  rw [target, ha, Option.getD_some, UInt16.toNat_ofNat', Nat.mod_eq_of_lt hsmall]

end Layout

namespace State

variable {s : State} {as : List Action} {code data : List UInt8} {r : Reference} {addr : Nat}

theorem Shows.patch {front back : List UInt8} {b x y : UInt8}
    (h : s.Shows (front ++ (b :: x :: y :: back)) data) (hr : r.offset = front.length)
    (hl : s.labels[r.label]? = some addr) :
    (s.patch r).fault = none ∧
      (s.patch r).state.Shows (front ++ (b :: (wordBytes addr ++ back))) data := by
  have hsplit : ∀ word, front ++ (b :: (word ++ back)) = (front ++ [b]) ++ (word ++ back) := by simp
  have himage := h.image
  rw [show x :: y :: back = [x, y] ++ back from rfl, hsplit] at himage
  obtain ⟨hf, hs⟩ := himage.overwrite (show [x, y].length = (wordBytes addr).length from rfl)
  rw [List.length_append, List.length_singleton, ← hr, Nat.zero_add] at hf hs
  rw [patch_of_defined hl]
  refine ⟨by rw [hf]; rfl, ?_, h.data_eq, ?_⟩
  · exact h.code_eq.trans (by simp [wordBytes])
  · rw [hsplit]
    exact hs

/-- A state that differs from another one in the bytes of its image at most. -/
def Repatched (s t : State) : Prop :=
  ∃ image : Image, image.size = s.image.size ∧ t = { s with image := image }

theorem repatched_refl (s : State) : s.Repatched s := ⟨s.image, rfl, rfl⟩

theorem repatched_patch (s : State) (r : Reference) : s.Repatched (s.patch r).state := by
  cases hl : s.labels[r.label]? with
  | none => exact ⟨s.image, rfl, by rw [patch_of_undefined hl]⟩
  | some addr => exact ⟨_, Image.size_place .., by rw [patch_of_defined hl]⟩

theorem repatched_forEach_patch (s : State) (rs : List Reference) :
    s.Repatched (Outcome.forEach patch s rs).state := by
  apply Outcome.forEach_induction (P := s.Repatched)
  · exact repatched_refl s
  · rintro t r _ ⟨image, hsize, rfl⟩
    obtain ⟨next, hnext, he⟩ := repatched_patch { s with image := image } r
    exact ⟨next, hnext.trans hsize, he⟩

theorem repatched_resolve (s : State) : s.Repatched s.resolve.state :=
  repatched_forEach_patch s s.references.toList

theorem Repatched.records {t : State} (h : s.Repatched t) (hs : s.Records as) : t.Records as := by
  obtain ⟨image, hsize, rfl⟩ := h
  exact ⟨hsize.trans hs.size, hs.code, hs.data, hs.labels, hs.references⟩

theorem labels_of_forEach_patch {rs : List Reference}
    (hf : (Outcome.forEach patch s rs).fault = none) :
    ∀ r ∈ rs, ∃ addr, s.labels[r.label]? = some addr := by
  induction rs generalizing s with
  | nil => simp
  | cons r rs ih =>
    rw [Outcome.forEach_cons, Outcome.fault_andThen_eq_none_iff] at hf
    obtain ⟨image, _, he⟩ := repatched_patch s r
    intro q hq
    rcases List.mem_cons.1 hq with rfl | hq
    · cases hl : s.labels[q.label]? with
      | none => simp [patch_of_undefined hl] at hf
      | some addr => exact ⟨addr, rfl⟩
    · have hrest := ih hf.2 q hq
      rw [he] at hrest
      exact hrest

/-- Patching the references of the actions still open turns their draft into their code. -/
theorem Shows.forEach_patch {target : String → UInt16} {front : List UInt8}
    (h : s.Shows (front ++ Layout.draft as) data)
    (ht : ∀ r ∈ (Layout.located front.length as).filterMap Layout.reference?,
      ∃ addr, s.labels[r.label]? = some addr ∧ target r.label = UInt16.ofNat addr) :
    let rs := (Layout.located front.length as).filterMap Layout.reference?
    (Outcome.forEach State.patch s rs).fault = none ∧
      (Outcome.forEach State.patch s rs).state.Shows (front ++ Layout.code target as) data := by
  induction as generalizing s front with
  | nil => exact ⟨rfl, h⟩
  | cons a as ih =>
    simp only [Layout.located, Layout.draft_cons, Layout.code_cons, ← List.append_assoc] at h ht ⊢
    have hlen : front.length + a.draft.length = (front ++ a.code target).length := by
      rw [List.length_append, a.length_code]
    cases hr : Layout.reference? (front.length, a) with
    | none =>
      rw [List.filterMap_cons_none hr, hlen] at ht ⊢
      rw [← Layout.code_of_reference?_none target hr] at h
      exact ih h ht
    | some r =>
      obtain ⟨hoff, b, x, y, hdraft, hcode⟩ := Layout.code_of_reference? target hr
      rw [List.filterMap_cons_some hr, hlen] at ht ⊢
      obtain ⟨addr, hl, htarget⟩ := ht r (by simp)
      rw [hdraft, List.append_assoc] at h
      obtain ⟨hf, hs⟩ := h.patch hoff hl
      obtain ⟨image, _, he⟩ := repatched_patch s r
      have hshow : (s.patch r).state.Shows (front ++ a.code target ++ Layout.draft as) data := by
        rw [hcode, htarget, wordBytes_ofNat]
        simpa using hs
      have htail := ih hshow (by
        intro q hq
        rw [he]
        exact ht q (List.mem_cons_of_mem r hq))
      rw [Outcome.forEach_cons, Outcome.fault_andThen_eq_none_iff, Outcome.state_andThen _ hf]
      exact ⟨⟨hf, htail.1⟩, htail.2⟩

/-- When every label is defined, resolving completes the code. -/
theorem Shows.resolve (hb : s.Records as) (h : s.Shows (Layout.draft as) data)
    (hdef : ∀ r ∈ Layout.references as, ∃ addr, Layout.address? as r.label = some addr) :
    s.resolve.fault = none ∧ s.resolve.state.Shows (Layout.code (Layout.target as) as) data := by
  have hfrom : s.Shows ([] ++ Layout.draft as) data := h
  rw [State.resolve, hb.references]
  apply hfrom.forEach_patch
  intro r hr
  obtain ⟨addr, ha⟩ := hdef r hr
  exact ⟨addr, (hb.labels r.label).trans ha, by rw [Layout.target, ha]; rfl⟩

theorem Records.address?_of_resolve (hb : s.Records as) (hf : s.resolve.fault = none) :
    ∀ r ∈ Layout.references as, ∃ addr, Layout.address? as r.label = some addr := by
  intro r hr
  rw [State.resolve, hb.references] at hf
  obtain ⟨addr, hl⟩ := labels_of_forEach_patch hf r hr
  exact ⟨addr, (hb.labels r.label).symm.trans hl⟩

/-- A successful assembly, told by the actions of its statements. -/
structure Assembled (texts : List (List Char)) (as : List Action) (s : State) : Prop where
  actions : Source.HasActions (texts.flatMap Source.statements) as
  performed : (Outcome.forEach perform fresh as).fault = none
  records : s.Records as
  showing : s.Shows (Layout.code (Layout.target as) as) (Layout.data as)
  defined : ∀ r ∈ Layout.references as, ∃ addr, Layout.address? as r.label = some addr

theorem records_programs {texts : List (List Char)}
    (has : Source.HasActions (texts.flatMap Source.statements) as)
    (hf : (Outcome.forEach perform fresh as).fault = none) :
    (fresh.programs texts).fault = none ∧ (fresh.programs texts).state.Records as ∧
      (fresh.programs texts).state.Shows (Layout.draft as) (Layout.data as) := by
  obtain ⟨left, hp⟩ := programs_eq fresh texts
  rw [forEach_execute_of_actions has] at hp
  have hb := records_fresh.forEach hf
  have hs := shows_fresh.forEach hf
  rw [hp]
  exact ⟨hf, hb.retext left, hs.retext left⟩

/-- An assembly that succeeds is told by the actions of its statements. -/
theorem exists_assembled {texts : List (List Char)}
    (hf : ((fresh.programs texts).andThen State.resolve).fault = none) :
    ∃ as, Assembled texts as ((fresh.programs texts).andThen State.resolve).state := by
  obtain ⟨hp, hr⟩ := Outcome.fault_andThen_eq_none_iff.1 hf
  obtain ⟨left, he⟩ := programs_eq fresh texts
  have hexec : (Outcome.forEach execute fresh (texts.flatMap Source.statements)).fault = none := by
    rw [he] at hp
    exact hp
  obtain ⟨as, has⟩ := exists_actions hexec
  rw [forEach_execute_of_actions has] at hexec
  obtain ⟨_, hb, hs⟩ := records_programs has hexec
  have hdef := hb.address?_of_resolve hr
  rw [Outcome.state_andThen _ hp]
  exact ⟨as, has, hexec, (repatched_resolve _).records hb, (hs.resolve hb hdef).2, hdef⟩

theorem assembled_of_performed {texts : List (List Char)}
    (has : Source.HasActions (texts.flatMap Source.statements) as)
    (hf : (Outcome.forEach perform fresh as).fault = none)
    (hdef : ∀ r ∈ Layout.references as, ∃ addr, Layout.address? as r.label = some addr) :
    ((fresh.programs texts).andThen State.resolve).fault = none ∧
      Assembled texts as ((fresh.programs texts).andThen State.resolve).state := by
  obtain ⟨hp, hb, hs⟩ := records_programs has hf
  obtain ⟨hr, hshow⟩ := hs.resolve hb hdef
  rw [Outcome.fault_andThen_eq_none_iff, Outcome.state_andThen _ hp]
  exact ⟨⟨hp, hr⟩, has, hf, (repatched_resolve _).records hb, hshow, hdef⟩

/-- Actions whose code and data fit in their halves of the image, and whose labels are all
defined, are an assembly that succeeds. -/
theorem assembled_of_actions {texts : List (List Char)}
    (has : Source.HasActions (texts.flatMap Source.statements) as)
    (hcode : (Layout.draft as).length ≤ 0x8000) (hdata : (Layout.data as).length ≤ 0x8000)
    (hdef : ∀ r ∈ Layout.references as, ∃ addr, Layout.address? as r.label = some addr) :
    ((fresh.programs texts).andThen State.resolve).fault = none ∧
      Assembled texts as ((fresh.programs texts).andThen State.resolve).state := by
  apply assembled_of_performed has _ hdef
  apply shows_fresh.fault_forEach
  · simp [fresh]
  · exact hcode
  · exact hdata

end State

end ByteAsm
