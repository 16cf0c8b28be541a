import ByteAsm.Assembly.Program
import Mathlib.Data.List.Forall2

/-! The statements of a text are found without regard to the state of the assembly. A program
is therefore its list of statements, executed one after the other. -/
namespace ByteAsm

open Source

namespace Outcome

variable {σ α : Type} {f : σ → α → Outcome σ} {s : σ}

theorem fault_andThen_eq_none_iff {o : Outcome σ} {next : σ → Outcome σ} :
    (o.andThen next).fault = none ↔ o.fault = none ∧ (next o.state).fault = none := by
  rcases o with ⟨s, notices, _ | e⟩ <;> simp [andThen, after]

theorem state_andThen {o : Outcome σ} (next : σ → Outcome σ) (h : o.fault = none) :
    (o.andThen next).state = (next o.state).state := by
  rcases o with ⟨s, notices, _ | e⟩
  · rfl
  · cases h

theorem fault_andThen {o : Outcome σ} (next : σ → Outcome σ) (h : o.fault = none) :
    (o.andThen next).fault = (next o.state).fault := by
  rcases o with ⟨s, notices, _ | e⟩
  · rfl
  · cases h

theorem andThen_of_fault {o : Outcome σ} {e : Fault} (next : σ → Outcome σ)
    (h : o.fault = some e) : o.andThen next = o := by
  rcases o with ⟨s, notices, _ | e⟩
  · cases h
  · rfl

theorem andThen_assoc (o : Outcome σ) (next last : σ → Outcome σ) :
    (o.andThen next).andThen last = o.andThen fun s => (next s).andThen last := by
  rcases o with ⟨s, notices, _ | e⟩
  · rcases ho : next s with ⟨t, more, _ | e⟩ <;> simp [andThen, after, ho]
  · rfl

theorem forEach_append (f : σ → α → Outcome σ) (s : σ) (as bs : List α) :
    forEach f s (as ++ bs) = (forEach f s as).andThen fun s => forEach f s bs := by
  induction as generalizing s with
  | nil => simp [andThen]
  | cons a as ih => simp only [List.cons_append, forEach_cons, ih, andThen_assoc]

theorem forEach_singleton (f : σ → α → Outcome σ) (s : σ) (a : α) : forEach f s [a] = f s a := by
  rw [forEach_cons]
  rcases f s a with ⟨next, notices, _ | e⟩ <;> simp [andThen, after]

theorem forEach_induction {P : σ → Prop} {as : List α} (hs : P s)
    (step : ∀ s, ∀ a ∈ as, P s → P (f s a).state) : P (forEach f s as).state := by
  induction as generalizing s with
  | nil => exact hs
  | cons a as ih =>
    rw [forEach_cons]
    have ha := step s a List.mem_cons_self hs
    cases hf : f s a with
    | mk t notices fault =>
      rw [hf] at ha
      cases fault with
      | none => exact ih ha fun t b hb => step t b (List.mem_cons_of_mem a hb)
      | some e => exact ha

/-- What each step that succeeds says about the steps so far, a list of steps says about all of them. -/
theorem forEach_trace (P : σ → List α → Prop) (as : List α) {bs : List α} (hs : P s as)
    (step : ∀ {s as a}, P s as → (f s a).fault = none → P (f s a).state (as ++ [a]))
    (hf : (forEach f s bs).fault = none) : P (forEach f s bs).state (as ++ bs) := by
  induction bs generalizing s as with
  | nil => simpa using hs
  | cons b bs ih =>
    rw [forEach_cons, fault_andThen_eq_none_iff] at hf
    rw [forEach_cons, state_andThen _ hf.1, List.append_cons]
    exact ih _ (step hs hf.1) hf.2

theorem forEach_concat (a : α) {as : List α} (h : (forEach f s as).fault = none) :
    forEach f s (as ++ [a]) = (f (forEach f s as).state a).after (forEach f s as).notices := by
  rw [forEach_append]
  rcases ho : forEach f s as with ⟨t, notices, _ | e⟩
  · simp only [andThen, forEach_singleton]
  · rw [ho] at h
    cases h

/-- A fault of a list of steps is that of the first step that fails, and nothing is done behind it. -/
theorem exists_fault_of_forEach {as : List α} {e : Fault} (h : (forEach f s as).fault = some e) :
    ∃ before a after, as = before ++ a :: after ∧ (forEach f s before).fault = none ∧
      (f (forEach f s before).state a).fault = some e ∧
      forEach f s as = forEach f s (before ++ [a]) := by
  induction as generalizing s with
  | nil => cases h
  | cons a as ih =>
    rcases hf : f s a with ⟨next, notices, _ | d⟩
    · rw [forEach_cons, hf] at h
      obtain ⟨before, b, after, rfl, hbefore, hb, hcut⟩ := ih h
      refine ⟨a :: before, b, after, rfl, ?_⟩
      simp only [List.cons_append, forEach_cons, hf, andThen]
      exact ⟨hbefore, hb, congrArg (·.after notices) hcut⟩
    · refine ⟨[], a, as, rfl, rfl, ?_⟩
      simp only [List.nil_append, forEach_cons, hf, andThen] at h ⊢
      rw [forEach_nil, hf]
      exact ⟨h, trivial⟩

end Outcome

namespace Source

theorem exists_forall₂ {α β : Type} {R : α → β → Prop} {xs : List α} (h : ∀ x ∈ xs, ∃ y, R x y) :
    ∃ ys, List.Forall₂ R xs ys := by
  induction xs with
  | nil => exact ⟨[], .nil⟩
  | cons x xs ih =>
    obtain ⟨hfirst, hrest⟩ := List.forall_mem_cons.1 h
    obtain ⟨y, hy⟩ := hfirst
    obtain ⟨ys, hys⟩ := ih hrest
    exact ⟨y :: ys, .cons hy hys⟩

/-- Statements without a fault, and their actions. -/
abbrev HasActions (list : List Statement) (as : List Action) : Prop :=
  List.Forall₂ (fun statement a => statement.action = .ok a) list as

theorem HasActions.split {before after : List Statement} {as : List Action}
    (h : HasActions (before ++ after) as) :
    ∃ bs cs, as = bs ++ cs ∧ HasActions before bs ∧ HasActions after cs := by
  induction before generalizing as with
  | nil => exact ⟨[], as, rfl, .nil, h⟩
  | cons first before ih =>
    cases h with
    | @cons _ b _ rest hb hrest =>
      obtain ⟨bs, cs, rfl, hbs, hcs⟩ := ih hrest
      exact ⟨b :: bs, cs, rfl, .cons hb hbs, hcs⟩

def statements (text : List Char) : List Statement :=
  match _ : Statement.read? (skipBlanks text) with
  | none => []
  | some (statement, rest) => statement :: statements rest
termination_by text.length
decreasing_by
  have hskip := (skipBlanks_suffix text).length_le
  have hrest := (Statement.read?_suffix ‹_›).2
  omega

theorem statements_of_read?_none {text : List Char}
    (h : Statement.read? (skipBlanks text) = none) : statements text = [] := by
  rw [statements]
  split
  · rfl
  · simp_all

theorem statements_of_read? {text rest : List Char} {statement : Statement}
    (h : Statement.read? (skipBlanks text) = some (statement, rest)) :
    statements text = statement :: statements rest := by
  rw [statements]
  split
  · simp_all
  · simp_all

theorem statements_congr {text other : List Char} (h : skipBlanks text = skipBlanks other) :
    statements text = statements other := by
  cases hr : Statement.read? (skipBlanks text) with
  | none => rw [statements_of_read?_none hr, statements_of_read?_none (h ▸ hr)]
  | some p =>
    obtain ⟨statement, rest⟩ := p
    have ho : Statement.read? (skipBlanks other) = some (statement, rest) := h ▸ hr
    rw [statements_of_read? hr, statements_of_read? ho]

@[simp] theorem statements_nil : statements [] = [] :=
  statements_of_read?_none (by rw [skipBlanks_of_none rfl]; rfl)

end Source

def Outcome.retext (o : Outcome State) (text : Option (List Char)) : Outcome State :=
  { o with state := { o.state with text := text } }

namespace State

theorem execute_of_error {statement : Statement} {f : Fault} (h : statement.action = .error f)
    (s : State) : s.execute statement = ⟨s, [], some f⟩ :=
  executeWith_of_error h s

theorem execute_of_ok {statement : Statement} {a : Action} (h : statement.action = .ok a) (s : State) :
    s.execute statement = s.perform a :=
  executeWith_of_ok h s

/-- The statements that are executed, the one that a fault stops included. -/
def executed (s : State) : List Statement → List Statement
  | [] => []
  | statement :: rest =>
    statement ::
      match s.execute statement with
      | ⟨next, _, none⟩ => next.executed rest
      | ⟨_, _, some _⟩ => []

theorem perform_retext (s : State) (text : Option (List Char)) (a : Action) :
    State.perform { s with text := text } a = (s.perform a).retext text := by
  cases a <;> rfl

theorem executeWith_retext (act : Statement.Meaning) (s : State) (text : Option (List Char))
    (statement : Statement) :
    executeWith act { s with text := text } statement = (s.executeWith act statement).retext text := by
  cases ha : act statement with
  | error f =>
    rw [executeWith_of_error ha, executeWith_of_error ha]
    rfl
  | ok a =>
    rw [executeWith_of_ok ha, executeWith_of_ok ha]
    exact perform_retext s text a

theorem withText_of_text {s : State} {text : List Char} (h : s.text = some text) :
    s.withText text = s := by
  simp [withText, ← h]

theorem stepWith_withText {read : Statement.Reader} {text rest : List Char} {statement : Statement}
    (act : Statement.Meaning) (h : read (skipBlanks text) = some (statement, rest)) (s : State) :
    (s.withText text).stepWith read act = (s.executeWith act statement).retext (some rest) := by
  rw [stepWith_of_read act rfl h]
  exact executeWith_retext act s (some rest) statement

theorem step_of_read? {s : State} {text rest : List Char} {statement : Statement}
    (h : Statement.read? (skipBlanks text) = some (statement, rest)) :
    (s.withText text).step = (s.execute statement).retext (some rest) :=
  stepWith_withText Statement.action h s

theorem step_withText (s : State) (text : List Char) :
    ∃ left, (s.withText text).step =
      (Outcome.forEach execute s ((statements text).take 1)).retext (some left) := by
  cases hr : Statement.read? (skipBlanks text) with
  | none =>
    refine ⟨[], ?_⟩
    rw [step_of_read?_none rfl hr, statements_of_read?_none hr]
    rfl
  | some p =>
    obtain ⟨statement, rest⟩ := p
    refine ⟨rest, ?_⟩
    rw [step_of_read? hr, statements_of_read? hr, List.take_succ_cons, List.take_zero,
      Outcome.forEach_cons]
    rcases s.execute statement with ⟨next, notices, _ | f⟩ <;>
      simp [Outcome.andThen, Outcome.after, Outcome.retext]

theorem forEach_execute_retext (s : State) (text : Option (List Char)) (list : List Statement) :
    Outcome.forEach execute { s with text := text } list =
      (Outcome.forEach execute s list).retext text := by
  induction list generalizing s with
  | nil => rfl
  | cons statement rest ih =>
    have hfirst : execute { s with text := text } statement = (s.execute statement).retext text :=
      executeWith_retext Statement.action s text statement
    rw [Outcome.forEach_cons, Outcome.forEach_cons, hfirst]
    rcases he : s.execute statement with ⟨next, notices, _ | f⟩
    · simp [Outcome.retext, Outcome.andThen, Outcome.after, ih]
    · rfl

@[simp] theorem program_withText_nil (s : State) :
    (s.withText []).program = ⟨s.withText [], [], none⟩ :=
  run_of_finished _ rfl []

theorem program_of_read?_none {s : State} {text : List Char}
    (h : Statement.read? (skipBlanks text) = none) :
    (s.withText text).program = ⟨s.withText [], [], none⟩ := by
  cases text with
  | nil => exact program_withText_nil s
  | cons c cs =>
    have hrun : (s.withText (c :: cs)).program = _ := run_nil_of_not_finished _ rfl
    rw [hrun, stepWith_of_read?_none _ rfl h]
    exact program_withText_nil s

theorem program_of_read? {s : State} {text rest : List Char} {statement : Statement}
    (h : Statement.read? (skipBlanks text) = some (statement, rest)) :
    (s.withText text).program = ((s.execute statement).retext (some rest)).andThen program := by
  cases text with
  | nil => rw [skipBlanks_of_none rfl] at h; cases h
  | cons c cs =>
    have hrun : (s.withText (c :: cs)).program = _ := run_nil_of_not_finished _ rfl
    rw [hrun, stepWith_withText _ h]
    rw [execute]
    rcases s.executeWith Statement.action statement with ⟨next, notices, _ | f⟩ <;> rfl

/-- A program executes the statements of its text and, unless a fault stops it, leaves nothing
of the text. -/
theorem program_withText (s : State) (text : List Char) :
    ∃ left, (s.withText text).program =
        (Outcome.forEach execute s (statements text)).retext (some left) ∧
      ((s.withText text).program.fault = none → left = []) := by
  -- the recursion is on the text: each statement leaves a shorter one
  induction hn : text.length using Nat.strongRecOn generalizing s text with
  | _ n ih =>
    cases hr : Statement.read? (skipBlanks text) with
    | none =>
      rw [program_of_read?_none hr, statements_of_read?_none hr]
      exact ⟨[], rfl, fun _ => rfl⟩
    | some p =>
      obtain ⟨statement, rest⟩ := p
      have hskip := (skipBlanks_suffix text).length_le
      have hrest := (Statement.read?_suffix hr).2
      rw [program_of_read? hr, statements_of_read? hr, Outcome.forEach_cons]
      rcases s.execute statement with ⟨next, notices, _ | f⟩
      · obtain ⟨left, hprog, hleft⟩ := ih rest.length (by omega) next rest rfl
        have hgo : ((⟨next, notices, none⟩ : Outcome State).retext (some rest)).andThen program =
            (next.withText rest).program.after notices := rfl
        refine ⟨left, ?_, ?_⟩
        · rw [hgo, hprog]
          rfl
        · rw [hgo]
          exact hleft
      · exact ⟨rest, rfl, fun h => by cases h⟩

/-- Statements without a fault have actions, and executing them performs these. -/
theorem forEach_execute_of_actions {list : List Statement} {as : List Action}
    (h : HasActions list as) (s : State) : Outcome.forEach execute s list = Outcome.forEach perform s as := by
  induction h generalizing s with
  | nil => rfl
  | cons ha _ ih =>
    rw [Outcome.forEach_cons, Outcome.forEach_cons]
    simp only [execute_of_ok ha, ih]

theorem exists_actions {s : State} {list : List Statement}
    (h : (Outcome.forEach execute s list).fault = none) : ∃ as, HasActions list as := by
  induction list generalizing s with
  | nil => exact ⟨[], .nil⟩
  | cons statement rest ih =>
    rw [Outcome.forEach_cons, Outcome.fault_andThen_eq_none_iff] at h
    obtain ⟨as, has⟩ := ih h.2
    cases ha : statement.action with
    | error f => simp [execute_of_error ha] at h
    | ok a => exact ⟨a :: as, .cons ha has⟩

def programs (s : State) (texts : List (List Char)) : Outcome State :=
  Outcome.forEach (fun s text => (s.withText text).program) s texts

theorem programs_singleton (s : State) (text : List Char) :
    s.programs [text] = (s.withText text).program :=
  Outcome.forEach_singleton _ s text

theorem programs_eq (s : State) (texts : List (List Char)) :
    ∃ left, s.programs texts =
      (Outcome.forEach execute s (texts.flatMap statements)).retext left := by
  induction texts generalizing s with
  | nil => exact ⟨s.text, rfl⟩
  | cons text texts ih =>
    obtain ⟨left, hp, _⟩ := program_withText s text
    rw [programs, Outcome.forEach_cons, hp, List.flatMap_cons, Outcome.forEach_append]
    rcases Outcome.forEach execute s (statements text) with ⟨next, notices, _ | f⟩
    · obtain ⟨later, hl⟩ := ih { next with text := some left }
      rw [forEach_execute_retext next] at hl
      refine ⟨later, ?_⟩
      simp only [Outcome.retext, Outcome.andThen]
      rw [← programs, hl]
      rfl
    · exact ⟨some left, rfl⟩

end State

end ByteAsm
