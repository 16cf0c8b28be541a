import ByteAsm.Proofs.Concatenation
import ByteAsm.Proofs.Idle

/-! Block comments run through the last `*/` of the text, not through their own. Two of them are one
comment, and whatever is written between them is lost without a fault. -/
namespace ByteAsm

open Source

namespace Source

def blockComment (body : List Char) : List Char := '/' :: '*' :: (body ++ ['*', '/'])

/-- A text on lines of its own, between two block comments. -/
def betweenComments (first text second : List Char) : List Char :=
  blockComment first ++ '\n' :: (text ++ '\n' :: (blockComment second ++ ['\n']))

variable {rest : List Char}

theorem skipBlanks_blockComment (body : List Char) (h : ¬ ['*', '/'] <:+: rest) :
    skipBlanks (blockComment body ++ rest) = skipBlanks rest := by
  have hlast : ¬ ['*', '/'] <:+: '/' :: rest := by
    rw [List.infix_cons_iff, not_or]
    exact ⟨by simp, h⟩
  have hend : afterLast? ['*', '/'] (body ++ '*' :: '/' :: rest) = some rest :=
    (afterLast?_go_append none body rest).trans (afterLast?_go_of_absent _ hlast)
  apply skipBlanks_of_afterBlank?
  simp [blockComment, afterBlank?, afterSpace?, show Text.isSpace '/' = false by decide,
    afterLineComment?, lineCommentBody?, afterBlockComment?, hend]

/-- Two comments with a text between them are one comment. -/
theorem betweenComments_eq (first text second : List Char) :
    betweenComments first text second =
      blockComment (first ++ '*' :: '/' :: '\n' :: (text ++ '\n' :: '/' :: '*' :: second)) ++ ['\n'] := by
  simp [betweenComments, blockComment]

end Source

namespace State

variable {s : State} {text : List Char}

theorem resolve_of_no_references (h : s.references = #[]) : s.resolve = ⟨s, [], none⟩ := by
  rw [State.resolve, h]
  rfl

theorem outcome_nil : (fresh.withText []).program.andThen State.resolve =
    ⟨fresh.withText [], [], none⟩ := by
  rw [program_withText_nil]
  exact congrArg (Outcome.after []) (resolve_of_no_references rfl)

theorem program_blockComment {rest : List Char} (body : List Char) (h : ¬ ['*', '/'] <:+: rest)
    (s : State) : (s.withText (blockComment body ++ rest)).program = (s.withText rest).program :=
  program_congr (skipBlanks_blockComment body h) s

theorem outcome_betweenComments (first text second : List Char) :
    (fresh.withText (betweenComments first text second)).program.andThen State.resolve =
      ⟨fresh.withText [], [], none⟩ := by
  have hline : skipBlanks ['\n'] = skipBlanks [] := (Blank.space (by decide)).skipBlanks_append []
  rw [betweenComments_eq, program_blockComment _ (by decide), program_congr hline, outcome_nil]

theorem idleIn_fresh_iff {statement : Statement} : statement.IdleIn fresh ↔ statement.Idle := by
  cases statement with
  | label name => simp [Statement.IdleIn, Statement.Idle, fresh]
  | _ => exact Iff.rfl

/-- The assembly of a text succeeds and leaves everything as it was exactly if its statements are idle. -/
theorem same_fresh_iff :
    ((fresh.withText text).program.andThen State.resolve).fault = none ∧
        ((fresh.withText text).program.andThen State.resolve).state.Same fresh ↔
      ∀ statement ∈ statements text, statement.Idle := by
  have hsame {o : Outcome State} : o.state.Same (fresh.withText []) ↔ o.state.Same fresh :=
    ⟨fun h => (same_withText.1 h.symm).symm, fun h => (same_withText.2 h.symm).symm⟩
  have hidle {statement : Statement} : statement.IdleIn (fresh.withText []) ↔ statement.Idle :=
    idleIn_fresh_iff
  have hiff := same_assembly_iff (show statements text = statements [] ++ statements text by
    rw [statements_nil, List.nil_append])
  simp only [outcome_nil, hsame, hidle] at hiff
  simpa only [program_withText_nil, ne_eq, not_true, false_or] using hiff

theorem idle_of_same_fresh (hf : ((fresh.withText text).program.andThen State.resolve).fault = none)
    (hsame : fresh.Same ((fresh.withText text).program.andThen State.resolve).state) :
    ∀ statement ∈ statements text, statement.Idle :=
  same_fresh_iff.1 ⟨hf, hsame.symm⟩

theorem same_fresh_of_idle (h : ∀ statement ∈ statements text, statement.Idle) :
    ((fresh.withText text).program.andThen State.resolve).fault = none ∧
      fresh.Same ((fresh.withText text).program.andThen State.resolve).state :=
  (same_fresh_iff.2 h).imp_right Same.symm

/-- A text between two block comments is not assembled, whatever the comments say. The outcome is the one
without the comments exactly if every statement of the text is idle. -/
theorem assemble_betweenComments (first text second : List Char) :
    (fresh.withText (betweenComments first text second)).program.andThen State.resolve =
        ⟨fresh.withText [], [], none⟩ ∧
      let o := (fresh.withText (betweenComments first text second)).program.andThen State.resolve
      let plain := (fresh.withText (text ++ ['\n'])).program.andThen State.resolve
      (o.fault = plain.fault ∧ o.state.Same plain.state ↔
        ∀ statement ∈ statements (text ++ ['\n']), statement.Idle) := by
  refine ⟨outcome_betweenComments first text second, ?_⟩
  intro o plain
  have ho : o = ⟨fresh.withText [], [], none⟩ := outcome_betweenComments first text second
  rw [ho, same_withText]
  constructor
  · rintro ⟨hf, hsame⟩
    exact idle_of_same_fresh hf.symm hsame
  · intro hidle
    obtain ⟨hf, hsame⟩ := same_fresh_of_idle hidle
    exact ⟨hf.symm, hsame⟩

/-- A halt between two comments is lost. -/
theorem blockComment_not_ended_first :
    ¬ ∀ (first second : List Char) (items : List Item) (lines : List (List Char)),
      ¬ ['*', '/'] <:+: first → ¬ ['*', '/'] <:+: second → List.Forall₂ Item.Spelled items lines →
      let text := ['\n'].intercalate lines
      let o := (fresh.withText (betweenComments first text second)).program.andThen State.resolve
      let plain := (fresh.withText (text ++ ['\n'])).program.andThen State.resolve
      o.fault = plain.fault ∧ o.state.Same plain.state := by
  intro hall
  have hhalt : Item.Spelled (.instruction .hlt ()) ['H', 'L', 'T'] := ⟨⟨[], rfl, rfl⟩, by decide, trivial⟩
  have hwritten : Written [.instruction .hlt ()] ("HLT".toList ++ ['\n']) :=
    .cons hhalt (.blank (.space (by decide))) .nil
  obtain ⟨hf, hsame⟩ := hall ['a'] ['b'] _ _ (by decide) (by decide) (.cons hhalt .nil)
  rw [outcome_betweenComments] at hf hsame
  have hidle := idle_of_same_fresh hf.symm (same_withText.1 hsame) (.instruction .hlt ())
  apply hidle
  change .instruction .hlt () ∈ statements ("HLT".toList ++ ['\n'])
  rw [hwritten.statements]
  exact List.mem_singleton_self _

end State

end ByteAsm
