import ByteAsm.Proofs.Listing

/-! Every text comes to its end. Both loops, the one over the blanks in front of a statement and the one
over the statements of a program, take a bite off the text in each round, so that the length of the text
bounds the number of rounds. -/
namespace ByteAsm

open Source

/-- A loop that goes on from each point to the next one until there is none, with the number of its
rounds. -/
inductive Rounds {α : Type} (next : α → Option α) : Nat → α → α → Prop
  | done {x : α} (h : next x = none) : Rounds next 0 x x
  | again {n : Nat} {x y z : α} (h : next x = some y) (hrest : Rounds next n y z) :
      Rounds next (n + 1) x z

/-- A loop that makes something smaller in each round ends, and if each round keeps what a function says
about the end, it ends there. -/
theorem Rounds.exists_of_measure {α : Type} {next : α → Option α} (size : α → Nat) (last : α → α)
    (hlast : ∀ x, next x = none → last x = x)
    (hnext : ∀ x y, next x = some y → last x = last y ∧ size y < size x) (x : α) :
    ∃ n ≤ size x, Rounds next n x (last x) := by
  induction hn : size x using Nat.strongRecOn generalizing x with
  | _ m ih =>
    cases h : next x with
    | none =>
      rw [hlast x h]
      exact ⟨0, Nat.zero_le m, .done h⟩
    | some y =>
      obtain ⟨hsame, hlt⟩ := hnext x y h
      obtain ⟨n, hle, hrest⟩ := ih (size y) (hn ▸ hlt) y rfl
      rw [hsame]
      exact ⟨n + 1, by omega, .again h hrest⟩

theorem Rounds.eq {α : Type} {next : α → Option α} {n m : Nat} {x y z : α} (hy : Rounds next n x y)
    (hz : Rounds next m x z) : y = z := by
  induction hy generalizing m with
  | done h =>
    cases hz with
    | done _ => rfl
    | again h' _ => cases h.symm.trans h'
  | again h _ ih =>
    cases hz with
    | done h' => cases h.symm.trans h'
    | again h' hrest =>
      cases h.symm.trans h'
      exact ih hrest

theorem Source.exists_rounds_skipBlanks (text : List Char) :
    ∃ n ≤ text.length, Rounds afterBlank? n text (skipBlanks text) := by
  apply Rounds.exists_of_measure List.length skipBlanks
  · intro text h
    exact skipBlanks_of_none h
  · intro text rest h
    exact ⟨skipBlanks_of_afterBlank? h, (afterBlank?_suffix h).2⟩

/-- One more step, unless a fault has stopped the assembly or there is no text left. -/
def Outcome.proceed? (o : Outcome State) : Option (Outcome State) :=
  if o.fault = none ∧ o.state.finished = false then some (o.andThen State.step) else none

namespace State

theorem exists_rounds_program (s : State) (text : List Char) :
    ∃ n ≤ text.length,
      Rounds Outcome.proceed? n ⟨s.withText text, [], none⟩ (s.withText text).program := by
  refine Rounds.exists_of_measure (fun o : Outcome State => o.state.left)
    (fun o => o.andThen (run Statement.action [])) ?_ ?_ ⟨s.withText text, [], none⟩
  · intro o h
    rcases o with ⟨t, notices, _ | f⟩
    · have hfinished : t.finished = true := by simpa [Outcome.proceed?] using h
      simp [Outcome.andThen, run_of_finished _ hfinished, Outcome.after]
    · rfl
  · intro o next h
    obtain ⟨⟨hf, hfinished⟩, rfl⟩ : (o.fault = none ∧ o.state.finished = false) ∧
        o.andThen State.step = next := by simpa [Outcome.proceed?] using h
    rcases o with ⟨t, notices, _ | f⟩
    · rw [Outcome.andThen_assoc]
      exact ⟨congrArg (Outcome.after notices) (run_nil_of_not_finished _ hfinished),
        left_stepWith_lt _ hfinished⟩
    · cases hf

/-- On every text that is not empty a step leaves a shorter end of it, also when a fault stops it; the
blanks in front of any text are dropped in not more rounds than it has characters; and so a program comes
to an end after not more steps than its text has characters, with nothing left of the text or with a
fault. -/
theorem step_shortens_program_ends (s : State) (text : List Char) :
    (text ≠ [] → ∃ left, (s.withText text).step.state.text = some left ∧ left <:+ text ∧
      left.length < text.length) ∧
    (∃ n ≤ text.length, ∃ left, Rounds afterBlank? n text left ∧
      (s.withText text).skip = ⟨s.withText left, [], none⟩) ∧
    ∃ n ≤ text.length,
      Rounds Outcome.proceed? n ⟨s.withText text, [], none⟩ (s.withText text).program ∧
      ((s.withText text).program.state.text = some [] ∨
        ∃ f, (s.withText text).program.fault = some f) := by
  refine ⟨exists_text_stepWith _ rfl, ?_, ?_⟩
  · obtain ⟨n, hle, hrounds⟩ := exists_rounds_skipBlanks text
    exact ⟨n, hle, skipBlanks text, hrounds, rfl⟩
  · obtain ⟨n, hle, hrounds⟩ := exists_rounds_program s text
    refine ⟨n, hle, hrounds, ?_⟩
    obtain ⟨left, he, hleft⟩ := program_withText s text
    cases hf : (s.withText text).program.fault with
    | none =>
      rw [he, hleft hf]
      exact .inl rfl
    | some f => exact .inr ⟨f, rfl⟩

end State

end ByteAsm
