import ByteAsm.Proofs.Repatching
import ByteAsm.Proofs.Written

/-! Joined texts. A text that lists statements ends in a separator, so none of its statements reaches
into a text that is put behind it: to assemble the joined text is to assemble one after the other. -/
namespace ByteAsm

open Source

namespace State

theorem program_congr {text other : List Char} (h : skipBlanks text = skipBlanks other) (s : State) :
    (s.withText text).program = (s.withText other).program := by
  cases hr : Statement.read? (skipBlanks text) with
  | none => rw [program_of_read?_none hr, program_of_read?_none (h ▸ hr)]
  | some p =>
    obtain ⟨statement, rest⟩ := p
    have ho : Statement.read? (skipBlanks other) = some (statement, rest) := h ▸ hr
    rw [program_of_read? hr, program_of_read? ho]

/-- A listed statement is executed, and the program goes on behind its separator. -/
theorem program_of_matches {statement : Statement} {front gap : List Char}
    (hfront : statement.Matches front) (hgap : Separator gap) (s : State) (rest : List Char) :
    ∃ left, (s.withText (front ++ (gap ++ rest))).program =
      ((s.execute statement).retext (some left)).andThen fun t => (t.withText rest).program := by
  obtain ⟨left, hread, hleft⟩ := hfront.read?_skipBlanks hgap rest
  refine ⟨left, ?_⟩
  rw [program_of_read? hread]
  rcases s.execute statement with ⟨next, notices, _ | f⟩
  · exact congrArg (Outcome.after notices) (program_congr hleft next)
  · rfl

/-- A text that lists statements and assembles without a fault may be followed by any other text:
assembling both as one is assembling the one and, from where that ends, the other. -/
theorem program_append {list : List Statement} {front : List Char} (h : Lists list front) (s : State)
    (rest : List Char) (hf : (s.withText front).program.fault = none) :
    (s.withText (front ++ rest)).program =
      (s.withText front).program.andThen fun t => (t.withText rest).program := by
  induction h generalizing s with
  | nil =>
    rw [program_withText_nil]
    rfl
  | @cons statement list first gap tail hfirst hgap _ ih =>
    obtain ⟨left, hone⟩ := program_of_matches hfirst hgap s tail
    obtain ⟨later, hboth⟩ := program_of_matches hfirst hgap s (tail ++ rest)
    rw [hone] at hf ⊢
    rw [List.append_assoc, List.append_assoc, hboth, Outcome.andThen_assoc]
    -- the two runs leave different texts behind the statement, which only a fault would show
    rcases he : s.execute statement with ⟨next, notices, _ | f⟩
    · rw [he, Outcome.fault_andThen_eq_none_iff] at hf
      exact congrArg (Outcome.after notices) (ih next hf.2)
    · rw [he] at hf
      cases hf

/-- The white space behind a load goes on in the second text, which then stops at a number. -/
theorem program_append_bad_number :
    let list := [.label "L", .data ['#'], .instruction .nop (),
      .instruction .ld (['1'], .hex ['1', '0'], ())]
    let front := "L:\n.ascii \"#\" NOP// x\nLD R1 ,0x10 ".toList
    let rest := "  LDI R1,010".toList
    Lists list front ∧ (fresh.withText front).program.fault = none ∧
      (fresh.withText (front ++ rest)).program =
        (fresh.withText front).program.andThen (fun t => (t.withText rest).program) ∧
      (fresh.withText (front ++ rest)).program.fault =
        some (.numeral (.leadingZero ['0', '1', '0'])) := by
  intro list front rest
  have hline : Separator ['\n'] := .blank (.space (by decide))
  have hspace : Separator [' '] := .blank (.space (by decide))
  have hcomment : Separator (['/', '/'] ++ ([' ', 'x'] ++ ['\n'])) :=
    .blank (.comment (.inr rfl) (by decide))
  have hgap : SpaceRun [' '] := ⟨by simp, List.all_eq_true.1 (by decide)⟩
  have hlabel : Statement.Matches (.label "L") ['L', ':'] :=
    ⟨⟨'L', [], rfl, by decide, by simp⟩, rfl⟩
  have hdata : Statement.Matches (.data ['#']) ['.', 'a', 's', 'c', 'i', 'i', ' ', '"', '#', '"'] :=
    ⟨.plain (by decide) (by decide) .nil, [' '], hgap, rfl⟩
  have hnop : Statement.Matches (.instruction .nop ()) ['N', 'O', 'P'] := ⟨[], rfl, rfl⟩
  have hld : Statement.Matches (.instruction .ld (['1'], .hex ['1', '0'], ()))
      ['L', 'D', ' ', 'R', '1', ' ', ',', '0', 'x', '1', '0'] := by
    refine ⟨_, ⟨[' '], ['R', '1'], _, rfl, hgap, ⟨⟨by simp, ?_⟩, rfl⟩,
      [' ', ','], ['0', 'x', '1', '0'], [], rfl, ⟨[' '], [], rfl, hgap.2, by simp⟩, ?_, rfl⟩, rfl⟩
    · exact List.all_eq_true.1 (by decide)
    · exact ⟨by simp, List.all_eq_true.1 (by decide), rfl⟩
  have h : Lists list front :=
    .cons hlabel hline (.cons hdata hspace (.cons hnop hcomment (.cons hld hspace .nil)))
  have hactions : HasActions (statements front)
      [.define "L", .store .add [35], .pad, .emit .add (.ld 1 16)] := by
    have hbytes : (Statement.data ['#']).action = .ok (.store .add [35]) := by cbv
    rw [h.statements]
    exact .cons rfl (.cons hbytes (.cons rfl (.cons rfl .nil)))
  have hf := follows_fresh.fault_program hactions ⟨by decide, by decide⟩
  have hjoined := program_append h fresh rest hf
  refine ⟨h, hf, hjoined, ?_⟩
  have hread : Statement.read? (skipBlanks rest) =
      some (.instruction .ldi (['1'], .decimal ['0', '1', '0'], ()), []) := by
    have hblanks : afterBlank? rest = some "LDI R1,010".toList := rfl
    rw [skipBlanks_of_afterBlank? hblanks, skipBlanks_of_none rfl]
    rfl
  rw [hjoined, Outcome.fault_andThen _ hf, program_of_read? hread]
  rfl

end State

end ByteAsm
