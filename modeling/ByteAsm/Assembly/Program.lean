import ByteAsm.Assembly.Action

/-! Assembling a text statement by statement. Each step takes a bite off the text, so a program
comes to an end. -/
namespace ByteAsm.State

open Source Text

def skip (s : State) : Outcome State :=
  match s.text with
  | none => ⟨s, [], some .noText⟩
  | some text => ⟨s.withText (skipBlanks text), [], none⟩

/-- Perform the action of a statement, if it has one. -/
def executeWith (act : Statement.Meaning) (s : State) (statement : Statement) : Outcome State :=
  match act statement with
  | .error f => ⟨s, [], some f⟩
  | .ok a => s.perform a

/-- Read the next statement, if there is one, and execute it. How statements are read and what they
do is given. -/
def stepWith (read : Statement.Reader) (act : Statement.Meaning) (s : State) : Outcome State :=
  match s.text with
  | none => ⟨s, [], some .noText⟩
  | some text =>
    let text := skipBlanks text
    match read text with
    | none => ⟨s.withText text, [], none⟩
    | some (statement, rest) => (s.withText rest).executeWith act statement

def execute (s : State) (statement : Statement) : Outcome State :=
  s.executeWith Statement.action statement

def step (s : State) : Outcome State := s.stepWith Statement.read? Statement.action

theorem skipBlanks_eq_nil_of_read? {text : List Char}
    (h : Statement.read? (skipBlanks text) = none) : skipBlanks text = [] := by
  have hb := afterBlank?_skipBlanks text
  cases hs : skipBlanks text with
  | nil => rfl
  | cons c rest =>
    simp only [hs, afterBlank?, Statement.read?, Option.orElse_eq_orElse, Option.orElse_eq_or,
      Option.or_eq_none_iff, afterSpace?] at h hb
    have hc : isSpace c = false := by simpa using hb.1
    have hu := h.2.2
    simp [Statement.unknown?, readRun?, hc] at hu

section

variable {s : State} {text rest : List Char} {statement : Statement} {act : Statement.Meaning}

theorem executeWith_of_error {f : Fault} (h : act statement = .error f) (s : State) :
    s.executeWith act statement = ⟨s, [], some f⟩ := by
  simp only [executeWith, h]

theorem executeWith_of_ok {a : Action} (h : act statement = .ok a) (s : State) :
    s.executeWith act statement = s.perform a := by
  simp only [executeWith, h]

@[simp] theorem text_executeWith (act : Statement.Meaning) (s : State) (statement : Statement) :
    (s.executeWith act statement).state.text = s.text := by
  cases ha : act statement with
  | error f => rw [executeWith_of_error ha]
  | ok a => rw [executeWith_of_ok ha, text_perform]

theorem stepWith_of_text_none (read : Statement.Reader) (act : Statement.Meaning)
    (h : s.text = none) : s.stepWith read act = ⟨s, [], some .noText⟩ := by
  simp only [stepWith, h]

theorem stepWith_of_read {read : Statement.Reader} (act : Statement.Meaning) (h : s.text = some text)
    (hr : read (skipBlanks text) = some (statement, rest)) :
    s.stepWith read act = (s.withText rest).executeWith act statement := by
  simp only [stepWith, h, hr]

theorem stepWith_of_read?_none (act : Statement.Meaning) (h : s.text = some text)
    (hr : Statement.read? (skipBlanks text) = none) :
    s.stepWith Statement.read? act = ⟨s.withText [], [], none⟩ := by
  simp only [stepWith, h, hr]
  rw [skipBlanks_eq_nil_of_read? hr]

theorem step_of_text_none (h : s.text = none) : s.step = ⟨s, [], some .noText⟩ :=
  stepWith_of_text_none _ _ h

theorem step_of_read?_none (h : s.text = some text)
    (hr : Statement.read? (skipBlanks text) = none) : s.step = ⟨s.withText [], [], none⟩ :=
  stepWith_of_read?_none _ h hr

/-- A step takes a bite off the front of a text, whether or not a fault stops it. -/
theorem exists_text_stepWith (act : Statement.Meaning) (h : s.text = some text) (hne : text ≠ []) :
    ∃ left, (s.stepWith Statement.read? act).state.text = some left ∧ left <:+ text ∧
      left.length < text.length := by
  have hskip := skipBlanks_suffix text
  cases hr : Statement.read? (skipBlanks text) with
  | none =>
    rw [stepWith_of_read?_none act h hr]
    exact ⟨[], rfl, List.nil_suffix, List.length_pos_iff.2 hne⟩
  | some p =>
    obtain ⟨statement, rest⟩ := p
    obtain ⟨hrest, hlt⟩ := Statement.read?_suffix hr
    refine ⟨rest, ?_, hrest.trans hskip, Nat.lt_of_lt_of_le hlt hskip.length_le⟩
    rw [stepWith_of_read act h hr, text_executeWith, withText]

theorem left_stepWith_lt (act : Statement.Meaning) (h : s.finished = false) :
    (s.stepWith Statement.read? act).state.left < s.left := by
  obtain ⟨c, cs, ht⟩ : ∃ c cs, s.text = some (c :: cs) := by
    unfold finished at h
    split at h
    · exact ⟨_, _, ‹_›⟩
    · simp at h
  obtain ⟨rest, hrest, _, hlt⟩ := exists_text_stepWith act ht (List.cons_ne_nil c cs)
  simpa only [left, hrest, ht] using hlt

end

/-- Step until the text is used up or a fault occurs. `log` holds the notices so far, the latest
first. -/
def run (act : Statement.Meaning) (log : List Notice) (s : State) : Outcome State :=
  if _ : s.finished then ⟨s, log.reverse, none⟩
  else
    let o := s.stepWith Statement.read? act
    match o.fault with
    | none => run act (o.notices.reverse ++ log) o.state
    | some f => ⟨o.state, log.reverse ++ o.notices, some f⟩
termination_by s.left
decreasing_by exact left_stepWith_lt act (by simp_all)

def programWith (act : Statement.Meaning) (s : State) : Outcome State :=
  match s.text with
  | none => ⟨s, [], some .noProgram⟩
  | some _ => s.run act []

def program (s : State) : Outcome State := s.programWith Statement.action

section

variable {s : State} (act : Statement.Meaning)

theorem program_of_text_none (h : s.text = none) : s.program = ⟨s, [], some .noProgram⟩ := by
  simp only [program, programWith, h]

theorem run_of_finished (h : s.finished) (log : List Notice) :
    s.run act log = ⟨s, log.reverse, none⟩ := by
  rw [run]
  simp [h]

theorem run_of_not_finished (h : s.finished = false) (log : List Notice) :
    s.run act log =
      match s.stepWith Statement.read? act with
      | ⟨next, notices, none⟩ => next.run act (notices.reverse ++ log)
      | ⟨next, notices, some f⟩ => ⟨next, log.reverse ++ notices, some f⟩ := by
  rw [run]
  simp only [h, Bool.false_eq_true, ↓reduceDIte]
  rcases s.stepWith Statement.read? act with ⟨next, notices, _ | f⟩ <;> rfl

theorem run_eq (log : List Notice) (s : State) :
    s.run act log = (s.run act []).after log.reverse := by
  induction hn : s.left using Nat.strongRecOn generalizing s log with
  | _ n ih =>
    cases h : s.finished with
    | true => simp [run_of_finished act h, Outcome.after]
    | false =>
      have ih := fun log => ih _ (hn ▸ left_stepWith_lt act h) log _ rfl
      rw [run_of_not_finished act h log, run_of_not_finished act h []]
      rcases he : s.stepWith Statement.read? act with ⟨next, notices, _ | f⟩
      · rw [he] at ih
        simp only
        rw [ih (_ ++ log), ih (_ ++ [])]
        simp
      · simp [Outcome.after]

theorem run_nil_of_not_finished (h : s.finished = false) :
    s.run act [] = (s.stepWith Statement.read? act).andThen (run act []) := by
  rw [run_of_not_finished act h]
  rcases s.stepWith Statement.read? act with ⟨next, notices, _ | f⟩
  · simp only [Outcome.andThen, List.append_nil]
    rw [run_eq, List.reverse_reverse]
  · rfl

end

end ByteAsm.State
