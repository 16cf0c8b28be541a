import ByteAsm.Proofs.Growth
import ByteAsm.Proofs.Integrity

/-! Adding bytes to the image or overwriting it comes to the same as long as the code ends below the
data. Every byte is then placed on a zero, so an assembler that only overwrites goes through the same
states with the same reports. A sum that does not fit in a byte is met only where code and data share
an address. -/
namespace ByteAsm

open Source

namespace Image

variable {p q : Placement} {image : Image} {addr : Nat} {bs : List UInt8}

theorem place_of_zero (p q : Placement)
    (h : ∀ k < bs.length, ∀ old, image[addr + k]? = some old → old = 0) :
    image.place p addr bs = image.place q addr bs := by
  induction bs generalizing image addr with
  | nil => rfl
  | cons b bs ih =>
    rcases Nat.lt_or_ge addr image.size with hlt | hge
    · have hzero : image[addr] = 0 := h 0 (by simp) _ (Array.getElem?_eq_getElem hlt)
      have hb : ∀ r : Placement, r.combine? image[addr] b = some b := by
        intro r
        rw [hzero]
        exact r.yields_zero b
      rw [place_cons_some hlt (hb p), place_cons_some hlt (hb q)]
      apply ih
      intro k hk old hold
      rw [Array.getElem?_set_ne hlt (by omega)] at hold
      apply h (k + 1) (by simpa using hk)
      rwa [show addr + (k + 1) = addr + 1 + k by omega]
    · rw [place_cons_outside hge, place_cons_outside hge]

/-- A sum that does not fit is met by an addition, between one of the bytes to be placed and the byte
where the placing stops. -/
theorem place_overflow (h : (image.place p addr bs).fault = some .overflow) :
    p = .add ∧ ∃ old, image[(image.place p addr bs).next]? = some old ∧
      ∃ new ∈ bs, 0x100 ≤ old.toNat + new.toNat := by
  induction bs generalizing image addr with
  | nil => cases h
  | cons b bs ih =>
    rcases Nat.lt_or_ge addr image.size with hlt | hge
    · cases hv : p.combine? image[addr] b with
      | some v =>
        rw [place_cons_some hlt hv] at h ⊢
        obtain ⟨hp, old, hold, new, hnew, hsum⟩ := ih h
        have hnext := le_next_place p (image.set addr v) (addr + 1) bs
        rw [Array.getElem?_set_ne hlt (by omega)] at hold
        exact ⟨hp, old, hold, new, List.mem_cons_of_mem b hnew, hsum⟩
      | none =>
        rw [place_cons_overflow hlt hv]
        cases p with
        | overwrite => cases hv
        | add =>
          simp only [Placement.combine?, ite_eq_right_iff, reduceCtorEq, imp_false] at hv
          exact ⟨rfl, _, Array.getElem?_eq_getElem hlt, b, List.mem_cons_self, by omega⟩
    · rw [place_cons_outside hge] at h
      cases h

end Image

def Action.overwriting : Action → Action
  | emit _ i => emit .overwrite i
  | store _ bytes => store .overwrite bytes
  | a => a

/-- What statements do in an assembler that overwrites where this one adds. -/
def Source.Statement.overwriting : Statement.Meaning := fun statement =>
  statement.action.map Action.overwriting

/-- The outcomes of calls that are made one after the other, whichever of them fail. -/
def Call.outcomes (respond : State → Call → Outcome State) (s : State) :
    List Call → List (Outcome State)
  | [] => []
  | c :: calls => respond s c :: outcomes respond (respond s c).state calls

namespace State

variable {s : State} {nops : Nat} {a : Action}

/-- There is nothing in the image but code and data. -/
structure Tidy (s : State) : Prop where
  data_ge : 0x8000 ≤ s.data
  nonzero : ∀ i b, s.image[i]? = some b → b ≠ 0 → i < s.code ∨ 0x8000 ≤ i ∧ i < s.data

theorem Sound.tidy (h : s.Sound nops) (ht : s.Tight) : s.Tidy := by
  refine ⟨h.data_ge, ?_⟩
  intro i b hi hb
  rcases h.nonzero i b hi hb with hcode | hdata | ⟨r, hr, hoff⟩
  · exact .inl hcode
  · exact .inr hdata
  · have hfits := ht.fits r hr
    exact .inl (by omega)

theorem Tidy.retext (h : s.Tidy) (text : Option (List Char)) : Tidy { s with text := text } :=
  ⟨h.data_ge, h.nonzero⟩

theorem Tidy.zero (h : s.Tidy) {i : Nat} {old : UInt8} (hold : s.image[i]? = some old)
    (hcode : s.code ≤ i) (hdata : i < 0x8000 ∨ s.data ≤ i) : old = 0 := by
  by_contra hb
  rcases h.nonzero i old hold hb with hi | hi <;> omega

/-- Until the code reaches the data, an action may as well overwrite. -/
theorem Tidy.perform_overwriting (h : s.Tidy) (hf : (s.perform a).fault = none)
    (hcode : (s.perform a).state.code ≤ 0x8000) : s.perform a.overwriting = s.perform a := by
  have hend := code_perform hf
  have hdata := h.data_ge
  cases a with
  | emit p i =>
    simp only [Action.draft] at hend
    have hplace : s.image.place .overwrite s.code i.draft = s.image.place p s.code i.draft := by
      apply Image.place_of_zero
      intro k hk old hold
      exact h.zero hold (by omega) (.inl (by omega))
    rw [Action.overwriting, perform_emit, perform_emit, hplace]
  | store p bytes =>
    have hplace : s.image.place .overwrite s.data bytes = s.image.place p s.data bytes := by
      apply Image.place_of_zero
      intro k hk old hold
      exact h.zero hold (by omega) (.inr (by omega))
    rw [Action.overwriting, perform_store, perform_store, hplace]
  | _ => rfl

theorem Tidy.executeWith_overwriting {statement : Statement} (h : s.Tidy)
    (hf : (s.execute statement).fault = none) (hcode : (s.execute statement).state.code ≤ 0x8000) :
    s.executeWith Statement.overwriting statement = s.execute statement := by
  cases ha : statement.action with
  | error f =>
    have hsame : statement.overwriting = .error f := by rw [Statement.overwriting, ha]; rfl
    rw [execute_of_error ha, executeWith_of_error hsame]
  | ok a =>
    have hsame : statement.overwriting = .ok a.overwriting := by rw [Statement.overwriting, ha]; rfl
    rw [execute_of_ok ha] at hf hcode ⊢
    rw [executeWith_of_ok hsame]
    exact h.perform_overwriting hf hcode

theorem Tidy.stepWith_overwriting (h : s.Tidy) (hf : s.step.fault = none)
    (hcode : s.step.state.code ≤ 0x8000) :
    s.stepWith Statement.read? Statement.overwriting = s.step := by
  cases ht : s.text with
  | none => rw [stepWith_of_text_none _ _ ht, step_of_text_none ht]
  | some text =>
    cases hr : Statement.read? (skipBlanks text) with
    | none => rw [stepWith_of_read?_none _ ht hr, step_of_read?_none ht hr]
    | some p =>
      have hstep : s.step = (s.withText p.2).execute p.1 := stepWith_of_read _ ht hr
      rw [hstep] at hf hcode ⊢
      rw [stepWith_of_read _ ht hr]
      exact (h.retext (some p.2)).executeWith_overwriting hf hcode

theorem state_run (s : State) : (s.run Statement.action []).state = s.program.state := by
  unfold State.program programWith
  cases ht : s.text with
  | none => rw [run_of_finished _ (by simp [finished, ht])]
  | some text => rfl

theorem run_overwriting (hs : s.Sound nops) (ht : s.Tight)
    (hf : (s.run Statement.action []).fault = none)
    (hcode : (s.run Statement.action []).state.code ≤ 0x8000) :
    s.run Statement.overwriting [] = s.run Statement.action [] := by
  induction hn : s.left using Nat.strongRecOn generalizing s nops with
  | _ n ih =>
    cases h : s.finished with
    | true => rw [run_of_finished _ h, run_of_finished _ h]
    | false =>
      have hrun : s.run Statement.action [] = s.step.andThen (run Statement.action []) :=
        run_nil_of_not_finished _ h
      rw [hrun] at hf hcode ⊢
      obtain ⟨hfirst, hrest⟩ := Outcome.fault_andThen_eq_none_iff.1 hf
      rw [Outcome.state_andThen _ hfirst] at hcode
      have hmid : s.step.state.code ≤ 0x8000 := by
        rw [state_run] at hcode
        exact Nat.le_trans (Call.grows_outcome s.step.state .program).code hcode
      have hkeeps := Call.keeps_outcome s .instruction
      have htail := ih s.step.state.left (hn ▸ left_stepWith_lt _ h) (hkeeps.sound nops hs)
        (hkeeps.tight ht hfirst) hrest hcode rfl
      rw [run_nil_of_not_finished _ h, (hs.tidy ht).stepWith_overwriting hfirst hmid]
      rcases he : s.step with ⟨next, notices, _ | f⟩
      · simp only [Call.outcome_instruction, he] at htail
        simp only [Outcome.andThen, htail]
      · rfl

theorem programWith_overwriting (hs : s.Sound nops) (ht : s.Tight) (hf : s.program.fault = none)
    (hcode : s.program.state.code ≤ 0x8000) :
    s.programWith Statement.overwriting = s.program := by
  unfold State.program programWith at *
  cases htext : s.text with
  | none => rfl
  | some text =>
    rw [htext] at hf hcode
    exact run_overwriting hs ht hf hcode

end State

open State

theorem Call.outcomeWith_overwriting {s : State} {nops : Nat} (hs : s.Sound nops) (ht : s.Tight)
    (c : Call) (hf : (c.outcome s).fault = none) (hcode : (c.outcome s).state.code ≤ 0x8000) :
    outcomeWith Statement.overwriting s c = c.outcome s := by
  cases c with
  | instruction => exact (hs.tidy ht).stepWith_overwriting hf hcode
  | program => exact programWith_overwriting hs ht hf hcode
  | file files name output =>
    simp only [outcomeWith, outcome_file] at hf hcode ⊢
    cases hsource : Workspace.source files name with
    | error f =>
      rw [Workspace.assembleWith_of_source_error _ hsource, Workspace.assemble_of_source_error hsource]
    | ok text =>
      rw [Workspace.assemble_of_source hsource] at hf hcode ⊢
      obtain ⟨left, he⟩ := Workspace.state_save output files
        ((s.withText text).program.andThen State.resolve)
      obtain ⟨image, _, hpatched⟩ := repatched_andThen_resolve (s.withText text).program
      rw [he, hpatched] at hcode
      have hprogram := (Outcome.fault_andThen_eq_none_iff.1 (Workspace.fault_of_save hf)).1
      have hsame : (s.withText text).programWith Statement.overwriting = (s.withText text).program :=
        programWith_overwriting (hs.retext (some text)) (ht.retext (some text)) hprogram hcode
      rw [Workspace.assembleWith_of_source _ hsource, hsame]
  | _ => rfl

namespace Session

theorem failed_of_foldl {x : Session} {calls : List Call}
    (h : (calls.foldl Session.call x).failed = false) : x.failed = false := by
  induction calls generalizing x with
  | nil => exact h
  | cons c calls ih => exact (Bool.or_eq_false_iff.1 (ih h)).1

theorem code_le_foldl (x : Session) (calls : List Call) :
    x.state.code ≤ (calls.foldl Session.call x).state.code := by
  induction calls generalizing x with
  | nil => exact Nat.le_refl _
  | cons c calls ih => exact Nat.le_trans (c.grows_outcome x.state).code (ih (x.call c))

theorem fault_of_mem_outcomes {x : Session} {calls : List Call}
    (hf : (calls.foldl Session.call x).failed = false) :
    ∀ o ∈ Call.outcomes Call.outcome x.state calls, o.fault = none := by
  induction calls generalizing x with
  | nil => simp [Call.outcomes]
  | cons c calls ih =>
    have hfirst : (x.call c).failed = false := failed_of_foldl hf
    intro o ho
    rcases List.mem_cons.1 ho with rfl | ho
    · simpa using (Bool.or_eq_false_iff.1 hfirst).2
    · exact ih hf o ho

/-- Calls that all succeed with their code below the data may as well overwrite. -/
theorem Valid.outcomes_overwriting {x : Session} {calls : List Call} (hx : x.Valid)
    (hf : (calls.foldl Session.call x).failed = false)
    (hcode : (calls.foldl Session.call x).state.code ≤ 0x8000) :
    Call.outcomes (Call.outcomeWith Statement.overwriting) x.state calls =
      Call.outcomes Call.outcome x.state calls := by
  induction calls generalizing x with
  | nil => rfl
  | cons c calls ih =>
    have hfirst : (x.call c).failed = false := failed_of_foldl hf
    obtain ⟨hbefore, hnow⟩ := Bool.or_eq_false_iff.1 hfirst
    have hsucceeds : (c.outcome x.state).fault = none := by simpa using hnow
    have hsame := Call.outcomeWith_overwriting hx.1 (hx.2 hbefore) c hsucceeds
      (Nat.le_trans (code_le_foldl (x.call c) calls) hcode)
    rw [Call.outcomes, Call.outcomes, hsame]
    exact congrArg _ (ih (hx.call c) hf hcode)

end Session

namespace State

variable {s : State} {a : Action}

/-- A byte of an action that does not fit on the byte where the action has arrived: a byte of code on
one of the data, or a byte of data on one of the code. -/
inductive Collision (s : State) : Action → Prop
  | code {i : Instruction String} {old new : UInt8} (hnew : new ∈ i.draft)
      (hold : s.image[s.code]? = some old) (hsum : 0x100 ≤ old.toNat + new.toNat)
      (hge : 0x8000 ≤ s.code) (hlt : s.code < s.data) : Collision s (.emit .add i)
  | data {bytes : List UInt8} {old new : UInt8} (hnew : new ∈ bytes)
      (hold : s.image[s.data]? = some old) (hsum : 0x100 ≤ old.toNat + new.toNat)
      (hlt : s.data < s.code) : Collision s (.store .add bytes)

theorem Collision.retext (h : s.Collision a) (text : Option (List Char)) :
    Collision { s with text := text } a := by
  cases h with
  | code hnew hold hsum hge hlt => exact .code hnew hold hsum hge hlt
  | data hnew hold hsum hlt => exact .data hnew hold hsum hlt

theorem ne_zero_of_overflow {old new : UInt8} (h : 0x100 ≤ old.toNat + new.toNat) : old ≠ 0 := by
  rintro rfl
  have hlt := new.toNat_lt
  have hzero : (0 : UInt8).toNat = 0 := rfl
  omega

/-- A sum that does not fit means that code and data share an address. -/
theorem Tidy.collision (h : s.Tidy) (hf : (s.perform a).fault = some (.image .overflow)) :
    (s.perform a).state.Collision a := by
  cases a with
  | emit p i =>
    rw [perform_emit] at hf ⊢
    obtain ⟨rfl, old, hold, new, hnew, hsum⟩ := Image.place_overflow (by simpa using hf)
    have hge := Image.le_next_place .add s.image s.code i.draft
    have hkeep : (s.image.place .add s.code i.draft).image[
        (s.image.place .add s.code i.draft).next]? = some old := by
      rw [Image.getElem?_place_of_next_le (Nat.le_refl _), hold]
    rcases h.nonzero _ old hold (ne_zero_of_overflow hsum) with hlt | ⟨hlow, hhigh⟩
    · omega
    · exact .code hnew hkeep hsum hlow hhigh
  | store p bytes =>
    rw [perform_store] at hf ⊢
    obtain ⟨rfl, old, hold, new, hnew, hsum⟩ := Image.place_overflow (by simpa using hf)
    have hge := Image.le_next_place .add s.image s.data bytes
    have hkeep : (s.image.place .add s.data bytes).image[
        (s.image.place .add s.data bytes).next]? = some old := by
      rw [Image.getElem?_place_of_next_le (Nat.le_refl _), hold]
    rcases h.nonzero _ old hold (ne_zero_of_overflow hsum) with hlt | ⟨hlow, hhigh⟩
    · exact .data hnew hkeep hsum hlt
    · omega
  | _ => cases hf

theorem executed_of_fault {before after : List Statement} {statement : Statement} {f : Fault}
    (hbefore : (Outcome.forEach execute s before).fault = none)
    (hf : ((Outcome.forEach execute s before).state.execute statement).fault = some f) :
    s.executed (before ++ statement :: after) = before ++ [statement] := by
  induction before generalizing s with
  | nil =>
    rw [Outcome.forEach_nil] at hf
    rcases he : s.execute statement with ⟨next, notices, _ | e⟩
    · simp [he] at hf
    · simp [executed, he]
  | cons first before ih =>
    rw [Outcome.forEach_cons, Outcome.fault_andThen_eq_none_iff] at hbefore
    rw [Outcome.forEach_cons, Outcome.state_andThen _ hbefore.1] at hf
    have hrest := ih hbefore.2 hf
    rcases he : s.execute first with ⟨next, notices, _ | e⟩
    · rw [he] at hrest
      simp only [List.cons_append, executed, he, hrest]
    · rw [he] at hbefore
      cases hbefore.1

theorem fault_resolve_ne_overflow (s : State) : s.resolve.fault ≠ some (.image .overflow) := by
  intro hf
  obtain ⟨before, r, _, _, _, hr, _⟩ := Outcome.exists_fault_of_forEach hf
  cases hl : (Outcome.forEach patch s before).state.labels[r.label]? with
  | none => simp [patch_of_undefined hl] at hr
  | some addr =>
    rw [patch_of_defined hl] at hr
    have hp := (Image.place_overflow (by simpa using hr)).1
    cases hp

end State

theorem Workspace.program_of_overflow {output : String} {s : State} {files : FileStore}
    {input : String}
    (hf : (assemble output ⟨s, files⟩ input).fault = some (.image .overflow)) :
    ∃ text, source files input = .ok text ∧
      (s.withText text).program.fault = some (.image .overflow) ∧
      (assemble output ⟨s, files⟩ input).state.state = (s.withText text).program.state := by
  cases stops_of_fault hf with
  | source hs => cases ofFile_of_source hs
  | @program text hs hp =>
    refine ⟨text, hs, hp, ?_⟩
    rw [assemble_of_source hs, Outcome.andThen_of_fault _ hp]
    rcases he : (s.withText text).program with ⟨t, notices, _ | f⟩
    · rw [he] at hp
      cases hp
    · simp only [save]
  | resolve hs hp hr => exact absurd hr (fault_resolve_ne_overflow _)
  | write hs hp hr hw => cases FileStore.ofFile_of_write hw

namespace Call

variable {s : State} {c : Call}

/-- A call in which a sum does not fit has been executing statements. -/
theorem exists_executed (hf : (c.outcome s).fault = some (.image .overflow)) :
    ∃ list left, c.recognised s = s.executed list ∧
      (Outcome.forEach execute s list).fault = some (.image .overflow) ∧
      (c.outcome s).state = { (Outcome.forEach execute s list).state with text := left } := by
  cases c with
  | input text => cases hf
  | skip =>
    simp only [outcome_skip, State.skip] at hf
    split at hf <;> cases hf
  | resolve => exact absurd hf s.fault_resolve_ne_overflow
  | instruction =>
    simp only [outcome_instruction, recognised] at hf ⊢
    cases ht : s.text with
    | none => simp [step_of_text_none ht] at hf
    | some text =>
      obtain ⟨left, hstep⟩ := step_withText s text
      rw [withText_of_text ht] at hstep
      rw [hstep] at hf ⊢
      exact ⟨_, some left, rfl, hf, rfl⟩
  | program =>
    simp only [outcome_program, recognised] at hf ⊢
    cases ht : s.text with
    | none => simp [program_of_text_none ht] at hf
    | some text =>
      obtain ⟨left, hprogram, _⟩ := program_withText s text
      rw [withText_of_text ht] at hprogram
      rw [hprogram] at hf ⊢
      exact ⟨_, some left, rfl, hf, rfl⟩
  | file files name output =>
    obtain ⟨text, hsource, hprogram, hstate⟩ := Workspace.program_of_overflow hf
    obtain ⟨left, he, _⟩ := program_withText s text
    simp only [outcome_file, recognised, hsource, hstate]
    rw [he] at hprogram ⊢
    exact ⟨_, some left, rfl, hprogram, rfl⟩

end Call

namespace State

theorem shows_halts {n : Nat} (hn : n ≤ 0x8000) :
    (fresh.withText (haltsText n)).program.fault = none ∧
      (fresh.withText (haltsText n)).program.state.Shows (List.replicate n 1) [1] := by
  obtain ⟨as, has⟩ : ∃ as : List Action,
      as = .store .add [1] :: List.replicate n (.emit .add .hlt) := ⟨_, rfl⟩
  have hactions : HasActions ([haltsText n].flatMap statements) as := by
    rw [List.flatMap_singleton, statements_haltsText, has]
    exact .cons action_data_one (actions_replicate rfl n)
  have hdraft : Layout.draft as = List.replicate n 1 := by
    rw [has, Layout.draft_cons, draft_halts]
    rfl
  have hdata : Layout.data as = [1] := by
    rw [has, Layout.data_cons, data_halts]
    rfl
  have hf : (Outcome.forEach perform fresh as).fault = none := by
    apply shows_fresh.fault_forEach
    · simp [fresh]
    · simpa [hdraft] using hn
    · simp [hdata]
  obtain ⟨hp, _, hs⟩ := records_programs hactions hf
  rw [programs_singleton, hdraft, hdata] at *
  exact ⟨hp, hs⟩

theorem Shows.overflow {s : State} {code data : List UInt8} {old first second : UInt8}
    {rest : List UInt8} {i : Instruction String} (h : s.Shows code (old :: data))
    (hcode : s.code = 0x7FFF) (hdraft : i.draft = first :: second :: rest)
    (hsum : 0x100 ≤ old.toNat + second.toNat) :
    (s.perform (.emit .add i)).fault = some (.image .overflow) := by
  have hd := h.data_eq
  have hle := h.data_le
  rw [List.length_cons] at hd
  have hlt : s.code < s.image.size := by omega
  have hfree : s.image[s.code] = 0 := by
    have hbyte := h.zero s.code hlt (Nat.le_refl _) (.inl (by omega))
    simpa [hlt] using hbyte
  have hnext : s.code + 1 < (s.image.set s.code first).size := by
    rw [Array.size_set]
    omega
  have hmeet : (s.image.set s.code first)[s.code + 1] = old := by
    have hbyte := h.data_byte (s.code + 1) (by omega) (by omega) (by omega)
    rw [show s.code + 1 - 0x8000 = 0 by omega, List.getElem?_cons_zero] at hbyte
    rw [Array.getElem_set_ne hlt (by omega) (by omega)]
    exact (Array.getElem?_eq_some_iff.1 hbyte).2
  have hno : Placement.combine? .add (s.image.set s.code first)[s.code + 1] second = none := by
    rw [hmeet, Placement.combine?, if_neg (by omega)]
  rw [perform_emit, hdraft,
    Image.place_cons_some hlt (by rw [hfree]; exact Placement.yields_zero .add first),
    Image.place_cons_overflow hnext hno]
  rfl

end State

namespace Session

/-- As long as all calls succeed and the code ends below the data, an assembler that overwrites where
this one adds has the same outcome at every call: the same state, the same notices and no fault. And
when a call fails because a sum does not fit in a byte, after calls that have all succeeded, then the
statement at which it stops has brought code and data together: a byte of its code was to be added at
an address of the data, or a byte of its data at an address of the code. -/
theorem overwriting_agrees (calls : List Call) (hf : (run calls).failed = false) :
    ((run calls).state.code ≤ 0x8000 →
      Call.outcomes (Call.outcomeWith Statement.overwriting) fresh calls =
          Call.outcomes Call.outcome fresh calls ∧
        ∀ o ∈ Call.outcomes (Call.outcomeWith Statement.overwriting) fresh calls, o.fault = none) ∧
    ∀ c : Call, (c.outcome (run calls).state).fault = some (.image .overflow) →
      ∃ before statement a, c.recognised (run calls).state = before ++ [statement] ∧
        statement.action = .ok a ∧
        (Outcome.forEach execute (run calls).state before).fault = none ∧
        ((Outcome.forEach execute (run calls).state before).state.perform a).fault =
          some (.image .overflow) ∧
        (c.outcome (run calls).state).state.Collision a := by
  have hvalid := run_valid calls
  constructor
  · intro hcode
    have hsame : Call.outcomes (Call.outcomeWith Statement.overwriting) fresh calls = _ :=
      Valid.outcomes_overwriting ⟨sound_fresh, fun _ => tight_fresh⟩ hf hcode
    rw [hsame]
    exact ⟨rfl, fault_of_mem_outcomes hf⟩
  · intro c hc
    obtain ⟨list, left, hlist, hfault, hstate⟩ := Call.exists_executed hc
    obtain ⟨before, statement, after, rfl, hbefore, hlast, hend⟩ :=
      Outcome.exists_fault_of_forEach hfault
    rw [executed_of_fault hbefore hlast] at hlist
    have hsound := hvalid.1.forEach_execute before
    have htight := (hvalid.2 hf).forEach_execute hbefore
    cases ha : statement.action with
    | error f =>
      simp only [execute_of_error ha, Option.some.injEq] at hlast
      exact absurd hlast (Statement.action_ne_image ha _)
    | ok a =>
      rw [execute_of_ok ha] at hlast
      refine ⟨before, statement, a, hlist, ha, hbefore, hlast, ?_⟩
      rw [hstate, hend, Outcome.forEach_concat statement hbefore, execute_of_ok ha]
      exact ((hsound.tidy htight).collision hlast).retext left

/-- A data byte, halts up to the last address below it, and a load whose second byte does not fit on
the data byte. -/
theorem overwriting_agrees_until_load :
    let calls := [.input (some (haltsText 0x7FFF)), .program, .input (some "LD R3,16383".toList)]
    (run calls).failed = false ∧ (run calls).state.code = 0x7FFF ∧
      Call.outcomes (Call.outcomeWith Statement.overwriting) fresh calls =
        Call.outcomes Call.outcome fresh calls ∧
      (Call.instruction.outcome (run calls).state).fault = some (.image .overflow) ∧
      ∃ a, (Call.instruction.outcome (run calls).state).state.Collision a := by
  obtain ⟨n, hn⟩ : ∃ n, n = 0x7FFF := ⟨_, rfl⟩
  rw [← hn]
  intro calls
  obtain ⟨hp, hshow⟩ := shows_halts (n := n) (by omega)
  have hfailed : (run calls).failed = false := by
    change (false || false || (fresh.withText (haltsText n)).program.fault.isSome || false) = false
    rw [hp]
    rfl
  have hstate : (run calls).state =
      (fresh.withText (haltsText n)).program.state.withText "LD R3,16383".toList := rfl
  have hcode : (run calls).state.code = n := by
    rw [hstate]
    exact hshow.code_eq.trans (by simp)
  have hread : Statement.read? (skipBlanks "LD R3,16383".toList) =
      some (.instruction .ld (['3'], .decimal ['1', '6', '3', '8', '3'], ()), []) := by
    rw [skipBlanks_of_none rfl]
    rfl
  have hoverflow : (Call.instruction.outcome (run calls).state).fault = some (.image .overflow) := by
    rw [Call.outcome_instruction, hstate, step_of_read? hread]
    exact (hshow.retext (some [])).overflow (hcode.trans hn) rfl (by decide)
  obtain ⟨hagree, hcollide⟩ := overwriting_agrees calls hfailed
  obtain ⟨_, _, a, _, _, _, _, ha⟩ := hcollide .instruction hoverflow
  exact ⟨hfailed, hcode, (hagree (by omega)).1, hoverflow, a, ha⟩

end Session

end ByteAsm
