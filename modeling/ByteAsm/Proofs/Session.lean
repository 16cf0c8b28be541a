import ByteAsm.Assembly.Workspace
import ByteAsm.Proofs.Denotation
import ByteAsm.Proofs.Resolution

/-! Working with one assembly for a long time. Whatever is called in whatever order, and whichever
of the calls fail, the books and the image of the state keep fitting together. -/
namespace ByteAsm

open Source

namespace State

/-- The books of a state fit its image, to which `nops` no-operations have added a byte each.
A byte that is not zero belongs to the code, to the data or to the target of a branch. -/
structure Sound (s : State) (nops : Nat) : Prop where
  code_le : s.code ≤ s.image.size
  data_ge : 0x8000 ≤ s.data
  data_le : s.data ≤ s.image.size
  size : s.image.size = 0x10000 + nops
  label_le : ∀ (name : String) (addr : Nat), s.labels[name]? = some addr → addr ≤ s.code
  offset_le : ∀ r ∈ s.references.toList, r.offset ≤ s.code
  sorted : s.references.toList.Pairwise fun r q => r.offset ≤ q.offset
  nonzero : ∀ i b, s.image[i]? = some b → b ≠ 0 → i < s.code ∨ 0x8000 ≤ i ∧ i < s.data ∨
    ∃ r ∈ s.references.toList, i = r.offset + 1 ∨ i = r.offset + 2

/-- Every branch is in the code as a whole, and no two of them overlap. -/
structure Tight (s : State) : Prop where
  fits : ∀ r ∈ s.references.toList, r.offset + 3 ≤ s.code
  apart : s.references.toList.Pairwise fun r q => r.offset + 3 ≤ q.offset

variable {s : State} {nops : Nat} {a : Action} {statement : Statement}

theorem sound_fresh : fresh.Sound 0 where
  code_le := Nat.zero_le _
  data_ge := Nat.le_refl _
  data_le := by simp [fresh]
  size := by simp [fresh]
  label_le := by
    intro name addr h
    simp [fresh] at h
  offset_le := by simp [fresh]
  sorted := List.Pairwise.nil
  nonzero := by
    intro i b h hb
    obtain ⟨_, h⟩ := Array.getElem?_eq_some_iff.1 h
    simp [fresh] at h
    exact absurd h.symm hb

theorem tight_fresh : fresh.Tight := ⟨by simp [fresh], List.Pairwise.nil⟩

theorem Sound.retext (h : s.Sound nops) (text : Option (List Char)) :
    Sound { s with text := text } nops :=
  ⟨h.code_le, h.data_ge, h.data_le, h.size, h.label_le, h.offset_le, h.sorted, h.nonzero⟩

theorem Tight.retext (h : s.Tight) (text : Option (List Char)) : Tight { s with text := text } :=
  ⟨h.fits, h.apart⟩

theorem offset_of_reference? {addr : Nat} {r : Reference}
    (h : Layout.reference? (addr, a) = some r) : r.offset = addr ∧ a.draft.length = 3 := by
  obtain ⟨hoff, b, x, y, hdraft, _⟩ := Layout.code_of_reference? (fun _ => 0) h
  exact ⟨hoff, by rw [hdraft]; rfl⟩

theorem ends_le_perform (s : State) (a : Action) :
    s.code ≤ (s.perform a).state.code ∧ s.data ≤ (s.perform a).state.data := by
  cases a with
  | emit p i => exact ⟨Image.le_next_place .., Nat.le_refl _⟩
  | store p bytes => exact ⟨Nat.le_refl _, Image.le_next_place ..⟩
  | _ => exact ⟨Nat.le_refl _, Nat.le_refl _⟩

theorem ends_perform_le_size (s : State) (a : Action) :
    (s.code ≤ s.image.size → (s.perform a).state.code ≤ (s.perform a).state.image.size) ∧
      (s.data ≤ s.image.size → (s.perform a).state.data ≤ (s.perform a).state.image.size) := by
  cases a with
  | emit p i =>
    simp only [perform_emit, Image.size_place]
    exact ⟨Image.next_place_le_size, id⟩
  | store p bytes =>
    simp only [perform_store, Image.size_place]
    exact ⟨id, Image.next_place_le_size⟩
  | pad =>
    simp only [perform_pad, Array.size_push]
    omega
  | _ => exact ⟨id, id⟩

/-- A byte that is not zero was there before, or is part of the new code or the new data. -/
theorem getElem?_perform_cases {i : Nat} {b : UInt8}
    (h : (s.perform a).state.image[i]? = some b) (hb : b ≠ 0) :
    s.image[i]? = some b ∨ s.code ≤ i ∧ i < (s.perform a).state.code ∨
      s.data ≤ i ∧ i < (s.perform a).state.data := by
  cases a with
  | emit p j => exact (Image.getElem?_place_cases h).imp_right .inl
  | store p bytes => exact (Image.getElem?_place_cases h).imp_right .inr
  | pad =>
    rw [perform_pad, Array.getElem?_push] at h
    split at h
    · cases h
      exact absurd rfl hb
    · exact .inl h
  | _ => exact .inl h

/-- Every action keeps the books, also one that fails halfway. -/
theorem Sound.perform (h : s.Sound nops) (a : Action) :
    (s.perform a).state.Sound (nops + Layout.pads [a]) := by
  obtain ⟨hcode, hdata⟩ := ends_le_perform s a
  obtain ⟨hcode_le, hdata_le⟩ := ends_perform_le_size s a
  refine ⟨hcode_le h.code_le, Nat.le_trans h.data_ge hdata, hdata_le h.data_le, ?_, ?_, ?_, ?_, ?_⟩
  · rw [size_perform, h.size, Nat.add_assoc]
  · intro name addr hl
    rw [labels_perform] at hl
    split at hl
    · cases hl
      exact hcode
    · exact Nat.le_trans (h.label_le name addr hl) hcode
  · intro r hr
    rw [references_perform, List.mem_append, Option.mem_toList] at hr
    rcases hr with hr | hr
    · exact Nat.le_trans (h.offset_le r hr) hcode
    · rw [(offset_of_reference? hr).1]
      exact hcode
  · rw [references_perform, List.pairwise_append]
    refine ⟨h.sorted, ?_, ?_⟩
    · cases Layout.reference? (s.code, a) <;> simp
    · intro r hr q hq
      rw [(offset_of_reference? (Option.mem_toList.1 hq)).1]
      exact h.offset_le r hr
  · intro i b hi hb
    rcases getElem?_perform_cases hi hb with hold | hnew | hnew
    · rcases h.nonzero i b hold hb with hc | hd | ⟨r, hr, hi⟩
      · exact .inl (by omega)
      · exact .inr (.inl ⟨hd.1, by omega⟩)
      · refine .inr (.inr ⟨r, ?_, hi⟩)
        rw [references_perform]
        exact List.mem_append_left _ hr
    · exact .inl hnew.2
    · exact .inr (.inl ⟨Nat.le_trans h.data_ge hnew.1, hnew.2⟩)

theorem Tight.perform (h : s.Tight) (hf : (s.perform a).fault = none) :
    (s.perform a).state.Tight := by
  have hcode := code_perform hf
  constructor
  · intro r hr
    rw [references_perform, List.mem_append, Option.mem_toList] at hr
    rcases hr with hr | hr
    · have := h.fits r hr
      omega
    · obtain ⟨hoff, hlen⟩ := offset_of_reference? hr
      omega
  · rw [references_perform, List.pairwise_append]
    refine ⟨h.apart, ?_, ?_⟩
    · cases Layout.reference? (s.code, a) <;> simp
    · intro r hr q hq
      rw [(offset_of_reference? (Option.mem_toList.1 hq)).1]
      exact h.fits r hr

theorem isNop_of_action_error {f : Fault} (h : statement.action = .error f) :
    statement.isNop = false := by
  cases statement with
  | instruction op operands =>
    cases op with
    | nop => cases h
    | _ => rfl
  | _ => rfl

theorem Sound.execute (h : s.Sound nops) (statement : Statement) :
    (s.execute statement).state.Sound (nops + [statement].countP Statement.isNop) := by
  cases ha : statement.action with
  | error f => simpa [execute_of_error ha, isNop_of_action_error ha] using h
  | ok a =>
    rw [execute_of_ok ha]
    have hactions : HasActions [statement] [a] := .cons ha .nil
    rw [← Layout.pads_of_actions hactions]
    exact h.perform a

theorem Tight.execute (h : s.Tight) (hf : (s.execute statement).fault = none) :
    (s.execute statement).state.Tight := by
  cases ha : statement.action with
  | error f =>
    rw [execute_of_error ha] at hf
    cases hf
  | ok a =>
    rw [execute_of_ok ha] at hf ⊢
    exact h.perform hf

theorem Sound.forEach_execute (h : s.Sound nops) (list : List Statement) :
    (Outcome.forEach State.execute s list).state.Sound
      (nops + (s.executed list).countP Statement.isNop) := by
  induction list generalizing s nops with
  | nil => exact h
  | cons statement rest ih =>
    have hfirst := h.execute statement
    rw [Outcome.forEach_cons, executed]
    rcases he : s.execute statement with ⟨next, notices, _ | f⟩
    · rw [he] at hfirst
      have hrest := ih hfirst
      rw [Nat.add_assoc, ← List.countP_append] at hrest
      exact hrest
    · rw [he] at hfirst
      exact hfirst

theorem Tight.forEach_execute {list : List Statement} (h : s.Tight)
    (hf : (Outcome.forEach State.execute s list).fault = none) :
    (Outcome.forEach State.execute s list).state.Tight :=
  Outcome.forEach_trace (fun t _ => t.Tight) [] h (fun h hf => h.execute hf) hf

theorem Sound.patch {r : Reference} (h : s.Sound nops) (hr : r ∈ s.references.toList) :
    (s.patch r).state.Sound nops := by
  cases hl : s.labels[r.label]? with
  | none =>
    rw [patch_of_undefined hl]
    exact h
  | some addr =>
    rw [patch_of_defined hl]
    refine ⟨by simpa using h.code_le, h.data_ge, by simpa using h.data_le, by simpa using h.size,
      h.label_le, h.offset_le, h.sorted, ?_⟩
    intro i b hi hb
    rcases Image.getElem?_place_cases hi with hold | ⟨hge, hlt⟩
    · exact h.nonzero i b hold hb
    · have hnext := Image.next_place_le .overwrite s.image (r.offset + 1) (wordBytes addr)
      simp only [wordBytes, List.length_cons, List.length_nil] at hnext hlt
      exact .inr (.inr ⟨r, hr, by omega⟩)

theorem Sound.resolve (h : s.Sound nops) : s.resolve.state.Sound nops := by
  have hboth : s.resolve.state.Sound nops ∧ s.Repatched s.resolve.state := by
    apply Outcome.forEach_induction (P := fun t => t.Sound nops ∧ s.Repatched t)
    · exact ⟨h, repatched_refl s⟩
    · rintro t r hr ⟨ht, image, hsize, rfl⟩
      obtain ⟨next, hnext, he⟩ := repatched_patch { s with image := image } r
      exact ⟨ht.patch hr, next, hnext.trans hsize, he⟩
  exact hboth.1

theorem Tight.resolve (h : s.Tight) : s.resolve.state.Tight := by
  obtain ⟨image, _, he⟩ := repatched_resolve s
  rw [he]
  exact ⟨h.fits, h.apart⟩

/-- An outcome with `nops` no-operations met on the way keeps the books, and it keeps the branches
whole if there is no fault. -/
structure Keeps (s : State) (o : Outcome State) (nops : Nat) : Prop where
  sound : ∀ n, s.Sound n → o.state.Sound (n + nops)
  tight : s.Tight → o.fault = none → o.state.Tight

theorem keeps_retext (s : State) (text : Option (List Char)) (notices : List Notice)
    (fault : Option Fault) : s.Keeps ⟨{ s with text := text }, notices, fault⟩ 0 :=
  ⟨fun _ h => h.retext text, fun h _ => h.retext text⟩

theorem keeps_execute (s : State) (list : List Statement) (left : Option (List Char)) :
    s.Keeps ((Outcome.forEach execute s list).retext left)
      ((s.executed list).countP Statement.isNop) :=
  ⟨fun _ h => (h.forEach_execute list).retext left,
    fun h hf => Tight.retext (h.forEach_execute hf) left⟩

theorem keeps_resolve (s : State) : s.Keeps s.resolve 0 :=
  ⟨fun _ h => h.resolve, fun h _ => h.resolve⟩

theorem Keeps.andThen {o : Outcome State} {next : State → Outcome State} (h : s.Keeps o nops)
    (hnext : ∀ t : State, t.Keeps (next t) 0) : s.Keeps (o.andThen next) nops := by
  rcases o with ⟨t, notices, _ | f⟩
  · exact ⟨fun n hs => (hnext t).sound _ (h.sound n hs),
      fun ht hf => (hnext t).tight (h.tight ht rfl) hf⟩
  · exact h

theorem keeps_program (s : State) (text : List Char) :
    s.Keeps (s.withText text).program
      ((s.executed (statements text)).countP Statement.isNop) := by
  obtain ⟨left, hp, _⟩ := program_withText s text
  rw [hp]
  exact keeps_execute s (statements text) (some left)

theorem keeps_step (s : State) (text : List Char) :
    s.Keeps (s.withText text).step
      ((s.executed ((statements text).take 1)).countP Statement.isNop) := by
  obtain ⟨left, hp⟩ := step_withText s text
  rw [hp]
  exact keeps_execute s ((statements text).take 1) (some left)

end State

open State

theorem Workspace.state_save (output : String) (files : FileStore) (o : Outcome State) :
    ∃ text, (save output files o).state.state = { o.state with text := text } := by
  rcases o with ⟨s, notices, _ | f⟩
  · refine ⟨none, ?_⟩
    simp only [save]
    cases files.write output s.image <;> rfl
  · exact ⟨s.text, rfl⟩

theorem Workspace.fault_of_save {output : String} {files : FileStore} {o : Outcome State}
    (h : (save output files o).fault = none) : o.fault = none := by
  rcases o with ⟨s, notices, _ | f⟩
  · rfl
  · exact h

/-- What can be done to an assembly: give it another text or none, read one statement or all of
them, drop blanks, resolve the branches, or assemble a file. -/
inductive Call
  | input (text : Option (List Char))
  | instruction
  | program
  | skip
  | resolve
  | file (files : FileStore) (name output : String)

namespace Call

/-- What a call does where the statements have a given meaning. -/
def outcomeWith (act : Statement.Meaning) (s : State) : Call → Outcome State
  | input text => ⟨{ s with text := text }, [], none⟩
  | instruction => s.stepWith Statement.read? act
  | program => s.programWith act
  | skip => s.skip
  | resolve => s.resolve
  | file files name output =>
    let o := Workspace.assembleWith act output ⟨s, files⟩ name
    ⟨o.state.state, o.notices, o.fault⟩

def outcome (s : State) (c : Call) : Outcome State := outcomeWith Statement.action s c

@[simp] theorem outcome_instruction (s : State) : instruction.outcome s = s.step := rfl

@[simp] theorem outcome_program (s : State) : program.outcome s = s.program := rfl

@[simp] theorem outcome_skip (s : State) : skip.outcome s = s.skip := rfl

@[simp] theorem outcome_file (s : State) (files : FileStore) (name output : String) :
    (file files name output).outcome s =
      let o := Workspace.assemble output ⟨s, files⟩ name
      ⟨o.state.state, o.notices, o.fault⟩ := rfl

def recognised (s : State) : Call → List Statement
  | instruction =>
    match s.text with
    | none => []
    | some text => s.executed ((statements text).take 1)
  | program =>
    match s.text with
    | none => []
    | some text => s.executed (statements text)
  | file files name _ =>
    match Workspace.source files name with
    | .error _ => []
    | .ok text => s.executed (statements text)
  | _ => []

theorem keeps_save {s : State} {o : Outcome State} {nops : Nat} (h : s.Keeps o nops)
    (output : String) (files : FileStore) :
    let saved := Workspace.save output files o
    s.Keeps ⟨saved.state.state, saved.notices, saved.fault⟩ nops := by
  intro saved
  rcases o with ⟨t, notices, _ | f⟩
  · have hnone : s.Keeps ⟨{ t with text := none }, notices, none⟩ nops :=
      ⟨fun n hs => (h.sound n hs).retext none, fun hs hf => (h.tight hs hf).retext none⟩
    simp only [saved, Workspace.save]
    cases files.write output t.image with
    | error f => exact ⟨hnone.sound, fun _ hf => by cases hf⟩
    | ok files => exact ⟨hnone.sound, hnone.tight⟩
  · exact ⟨h.sound, fun _ hf => by cases hf⟩

theorem keeps_file (s : State) (files : FileStore) (name output : String) :
    s.Keeps ((file files name output).outcome s)
      (((file files name output).recognised s).countP Statement.isNop) := by
  simp only [outcome_file, recognised]
  cases hs : Workspace.source files name with
  | error f =>
    rw [Workspace.assemble_of_source_error hs]
    exact keeps_retext s s.text [] (some f)
  | ok text =>
    rw [Workspace.assemble_of_source hs]
    exact keeps_save ((keeps_program s text).andThen keeps_resolve) output files

/-- Every call keeps the books. -/
theorem keeps_outcome (s : State) (c : Call) :
    s.Keeps (c.outcome s) ((c.recognised s).countP Statement.isNop) := by
  cases c with
  | input text => exact keeps_retext s text [] none
  | instruction =>
    simp only [outcome_instruction, recognised]
    cases ht : s.text with
    | none =>
      rw [step_of_text_none ht]
      exact keeps_retext s s.text [] _
    | some text =>
      have h := keeps_step s text
      rwa [withText_of_text ht] at h
  | program =>
    simp only [outcome_program, recognised]
    cases ht : s.text with
    | none =>
      rw [program_of_text_none ht]
      exact keeps_retext s s.text [] _
    | some text =>
      have h := keeps_program s text
      rwa [withText_of_text ht] at h
  | skip =>
    simp only [outcome_skip, recognised, State.skip]
    cases s.text with
    | none => exact keeps_retext s s.text [] _
    | some text => exact keeps_retext s _ [] none
  | resolve => exact keeps_resolve s
  | file files name output => exact keeps_file s files name output

end Call

/-- An assembly in use, with the number of no-operations recognised so far, and whether some call
has failed. -/
structure Session where
  state : State
  nops : Nat
  failed : Bool

namespace Session

def call (x : Session) (c : Call) : Session where
  state := (c.outcome x.state).state
  nops := x.nops + (c.recognised x.state).countP Statement.isNop
  failed := x.failed || (c.outcome x.state).fault.isSome

def run (calls : List Call) : Session := calls.foldl call ⟨fresh, 0, false⟩

def Valid (x : Session) : Prop := x.state.Sound x.nops ∧ (x.failed = false → x.state.Tight)

theorem Valid.call {x : Session} (h : x.Valid) (c : Call) : (x.call c).Valid := by
  obtain ⟨hsound, htight⟩ := c.keeps_outcome x.state
  refine ⟨hsound x.nops h.1, ?_⟩
  intro hf
  obtain ⟨hbefore, hnow⟩ := Bool.or_eq_false_iff.1 hf
  exact htight (h.2 hbefore) (Option.not_isSome_iff_eq_none.1 (by simp [hnow]))

theorem Valid.foldl {x : Session} (h : x.Valid) (calls : List Call) :
    (calls.foldl Session.call x).Valid := by
  induction calls generalizing x with
  | nil => exact h
  | cons c calls ih => exact ih (h.call c)

theorem run_valid (calls : List Call) : (run calls).Valid :=
  Valid.foldl ⟨sound_fresh, fun _ => tight_fresh⟩ calls

/-- After any calls the books fit the image, failed calls included. As long as no call has failed,
the branches are whole and apart, and every byte that is not zero is code or data. -/
theorem run_sound (calls : List Call) :
    let x := run calls
    x.state.Sound x.nops ∧
      (x.failed = false → x.state.Tight ∧
        ∀ i b, x.state.image[i]? = some b → b ≠ 0 →
          i < x.state.code ∨ 0x8000 ≤ i ∧ i < x.state.data) := by
  obtain ⟨hsound, htight⟩ := run_valid calls
  refine ⟨hsound, fun hf => ⟨htight hf, ?_⟩⟩
  intro i b hi hb
  rcases hsound.nonzero i b hi hb with hcode | hdata | ⟨r, hr, hoff⟩
  · exact .inl hcode
  · exact .inr hdata
  · have hfits := (htight hf).fits r hr
    exact .inl (by omega)

end Session

end ByteAsm
