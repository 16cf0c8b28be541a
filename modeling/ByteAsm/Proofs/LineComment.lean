import ByteAsm.Proofs.Idle
import ByteAsm.Proofs.Written
import Mathlib.Data.List.DropRight
import Mathlib.Data.List.Infix

/-! Comments on a last line that has no end. Such a line is a comment up to its last `$` only, and without
a `$` only up to its first white space, where its mark is reported as an unknown token. The rest of the
line is assembled. -/
namespace ByteAsm

open Source Text

namespace Source

/-- What is not taken for a comment on a last line: the text behind the last `$`, or without a `$` the text
from the first white space on. -/
def lastLineRest (body : List Char) : List Char :=
  if '$' ∈ body then body.rtakeWhile (· ≠ '$') else body.dropWhile (!isSpace ·)

/-- The statement that the mark of a comment becomes on a last line without a `$`. -/
def lastLineToken (mark body : List Char) : List Statement :=
  if '$' ∈ body then [] else [.unknown (mark ++ body.takeWhile (!isSpace ·))]

variable {mark body rest : List Char}

theorem absent_dollar (h : '$' ∉ body) : ¬ ['$'] <:+: body :=
  mt (List.singleton_infix_iff '$' body).1 h

theorem afterLast?_dollar_of_mem (h : '$' ∈ body) :
    afterLast? ['$'] body = some (body.rtakeWhile (· ≠ '$')) := by
  have hbehind : '$' ∉ body.rtakeWhile (· ≠ '$') := by
    intro hmem
    simpa using List.mem_rtakeWhile_imp hmem
  have hfront : body.rdropWhile (· ≠ '$') ≠ [] := by
    simp only [Ne, List.rdropWhile_eq_nil_iff, not_forall]
    exact ⟨'$', h, by simp⟩
  have hlast : (body.rdropWhile (· ≠ '$')).getLast hfront = '$' := by
    simpa using List.rdropWhile_last_not (· ≠ '$') body hfront
  have hsplit : body =
      (body.rdropWhile (· ≠ '$')).dropLast ++ '$' :: body.rtakeWhile (· ≠ '$') := by
    have hcut := List.dropLast_append_getLast hfront
    rw [hlast] at hcut
    rw [List.append_cons, hcut, List.rdropWhile_append_rtakeWhile]
  generalize body.rtakeWhile (· ≠ '$') = tail at hbehind hsplit ⊢
  have hend := @afterLast?_go_append '$' [] none (body.rdropWhile (· ≠ '$')).dropLast tail
  rw [hsplit]
  exact hend.trans (afterLast?_go_of_absent _ (absent_dollar hbehind))

theorem afterLineComment?_of_not_mem {text : List Char} (h : lineCommentBody? text = some body)
    (hbody : '\n' ∉ body) : afterLineComment? text = afterLast? ['$'] body := by
  have hline : body.dropWhile (· ≠ '\n') = [] := by
    simp only [List.dropWhile_eq_nil_iff, decide_eq_true_eq]
    rintro c hc rfl
    exact hbody hc
  simp only [afterLineComment?, h, hline]

theorem afterBlank?_lastLine (hmark : mark = ['#'] ∨ mark = ['/', '/']) (hbody : '\n' ∉ body) :
    afterBlank? (mark ++ body) = afterLast? ['$'] body := by
  have hstart : lineCommentBody? (mark ++ body) = some body ∧
      afterSpace? (mark ++ body) = none ∧ afterBlockComment? (mark ++ body) = none := by
    rcases hmark with rfl | rfl
    · simp [lineCommentBody?, afterSpace?, afterBlockComment?, show isSpace '#' = false by decide]
    · simp [lineCommentBody?, afterSpace?, afterBlockComment?, show isSpace '/' = false by decide]
  obtain ⟨hmarked, hspace, hblock⟩ := hstart
  simp only [afterBlank?, hspace, afterLineComment?_of_not_mem hmarked hbody, hblock]
  simp

theorem Statement.read?_of_head {c : Char} (hword : isWord c = false) (hdot : c ≠ '.')
    (hspace : isSpace c = false) (rest : List Char) :
    Statement.read? (c :: rest) =
      some (.unknown (c :: rest.takeWhile (!isSpace ·)), rest.dropWhile (!isSpace ·)) := by
  have hname : isNameStart c = false := by
    apply Bool.eq_false_iff.2
    intro h
    simp [isWord_of_isNameStart h] at hword
  have hdata : Statement.data? (c :: rest) = none := by
    simp [Statement.data?, after?, Ne.symm hdot]
  have hinstruction : ∀ op, Statement.instruction? op (c :: rest) = none := by
    intro op
    obtain ⟨d, word, hw⟩ := List.exists_cons_of_ne_nil op.word_ne_nil
    have hd := op.isWord_of_mem_word d (by simp [hw])
    have hne : d ≠ c := by
      rintro rfl
      simp [hd] at hword
    simp [Statement.instruction?, readInstruction?, hw, after?, hne]
  have hforms : Statement.forms.findSome? (· (c :: rest)) = none := by
    simp only [List.findSome?_eq_none_iff, Statement.forms, List.mem_cons, List.mem_map]
    rintro form (rfl | ⟨op, _, rfl⟩)
    · exact hdata
    · exact hinstruction op
  simp [Statement.read?, Statement.label?, readName?, hname, hforms, Statement.unknown?, readRun?,
    hspace]

/-- The statements of a last line that starts with the mark of a comment. -/
theorem statements_lastLine (hmark : mark = ['#'] ∨ mark = ['/', '/']) (hbody : '\n' ∉ body) :
    statements (mark ++ body) = lastLineToken mark body ++ statements (lastLineRest body) := by
  have hblank := afterBlank?_lastLine hmark hbody
  by_cases hdollar : '$' ∈ body
  · rw [afterLast?_dollar_of_mem hdollar] at hblank
    simp only [lastLineToken, lastLineRest, if_pos hdollar, List.nil_append]
    exact statements_congr (skipBlanks_of_afterBlank? hblank)
  · rw [afterLast?, afterLast?_go_of_absent _ (absent_dollar hdollar)] at hblank
    have hspace : isSpace '/' = false := by decide
    have hread : Statement.read? (skipBlanks (mark ++ body)) =
        some (.unknown (mark ++ body.takeWhile (!isSpace ·)), body.dropWhile (!isSpace ·)) := by
      rw [skipBlanks_of_none hblank]
      rcases hmark with rfl | rfl
      · exact Statement.read?_of_head (by decide) (by decide) (by decide) body
      · have hread := Statement.read?_of_head (by decide) (by decide) hspace ('/' :: body)
        simpa [hspace] using hread
    simp only [lastLineToken, lastLineRest, if_neg hdollar]
    exact statements_of_read? hread

end Source

namespace State

variable {list : List Statement} {text : List Char}

/-- On a last line without an end a comment reaches to its last `$` only, and without a `$` its mark is a
token that is not known. What is behind is assembled, so that the outcome is the one without the line
exactly if the program stops before it or the statements there would change nothing. -/
theorem assemble_lastLine {mark body : List Char} (hlist : Lists list text)
    (hmark : mark = ['#'] ∨ mark = ['/', '/']) (hbody : '\n' ∉ body) :
    statements (text ++ (mark ++ body)) =
        list ++ (lastLineToken mark body ++ statements (lastLineRest body)) ∧
      let plain := (fresh.withText text).program.andThen State.resolve
      let o := (fresh.withText (text ++ (mark ++ body))).program.andThen State.resolve
      (o.fault = plain.fault ∧ o.state.Same plain.state ↔
        (fresh.withText text).program.fault ≠ none ∨
          ∀ statement ∈ statements (lastLineRest body), statement.IdleIn plain.state) := by
  have hstatements := hlist.statements_append (mark ++ body)
  rw [statements_lastLine hmark hbody] at hstatements
  refine ⟨hstatements, ?_⟩
  rw [← hlist.statements] at hstatements
  intro plain o
  have htoken : ∀ statement ∈ lastLineToken mark body, statement.IdleIn plain.state := by
    intro statement hmem
    simp only [lastLineToken] at hmem
    split at hmem
    · cases hmem
    · obtain rfl := List.mem_singleton.1 hmem
      trivial
  refine (same_assembly_iff hstatements).trans ?_
  simp only [List.mem_append, or_imp, forall_and]
  rw [and_iff_right htoken]

/-- A label at the end of the line that says what is known already. -/
theorem assemble_lastLine_label :
    Lists [.label "L"] ['L', ':', '\n'] ∧ '\n' ∉ [' ', '$', 'L', ':', ' '] ∧
      let plain := (fresh.withText ['L', ':', '\n']).program.andThen State.resolve
      let o := (fresh.withText ['L', ':', '\n', '#', ' ', '$', 'L', ':', ' ']).program.andThen
        State.resolve
      o.fault = plain.fault ∧ o.state.Same plain.state := by
  have hspelled : (Statement.label "L").Matches ['L', ':'] := by
    refine ⟨⟨'L', [], by decide, by decide, ?_⟩, by decide⟩
    simp
  have hlines : Lists [.label "L"] ['L', ':', '\n'] :=
    .cons hspelled (.blank (.space (by decide))) .nil
  have hrest : statements (lastLineRest [' ', '$', 'L', ':', ' ']) = [.label "L"] :=
    (Lists.cons hspelled (.blank (.space (by decide))) .nil).statements
  refine ⟨hlines, by decide, ?_⟩
  refine ((assemble_lastLine hlines (.inl rfl) (by decide)).2).2 (.inr ?_)
  obtain ⟨left, he, _⟩ := program_withText fresh ['L', ':', '\n']
  rw [hlines.statements] at he
  rw [hrest, he]
  intro statement hmem
  obtain rfl := List.mem_singleton.1 hmem
  rfl

/-- A return that stands in a comment on the last line is assembled. -/
theorem lastLine_not_always_comment :
    ¬ ∀ (list : List Statement) (lines : List (List Char)) (mark body : List Char),
      List.Forall₂ Statement.Matches list lines → mark = ['#'] ∨ mark = ['/', '/'] → '\n' ∉ body →
      let text := lines.flatMap (· ++ ['\n'])
      let plain := (fresh.withText text).program.andThen State.resolve
      let o := (fresh.withText (text ++ (mark ++ body))).program.andThen State.resolve
      o.fault = plain.fault ∧ o.state.Same plain.state := by
  intro hall
  have hhalt : (Statement.instruction .hlt ()).Matches ['H', 'L', 'T'] := ⟨[], rfl, rfl⟩
  have hlist : Lists [.instruction .hlt ()] ['H', 'L', 'T', '\n'] :=
    .cons hhalt (.blank (.space (by decide))) .nil
  have hactions : HasActions (statements ['H', 'L', 'T', '\n']) [.emit .add .hlt] := by
    rw [hlist.statements]
    exact .cons rfl .nil
  have hprogram := follows_fresh.fault_program hactions ⟨by decide, by decide⟩
  have hreturn : Statement.read? (skipBlanks [' ', 'R', 'E', 'T']) = some (.instruction .ret (), []) := by
    rw [skipBlanks_of_afterBlank? rfl, skipBlanks_of_none rfl]
    rfl
  have hline : statements (['#'] ++ [' ', 'R', 'E', 'T']) = _ :=
    (statements_lastLine (.inl rfl) (by decide)).trans (congrArg _ (statements_of_read? hreturn))
  have htail := hlist.statements_append (['#'] ++ [' ', 'R', 'E', 'T'])
  rw [hline, ← hlist.statements] at htail
  have hsame := hall _ _ ['#'] [' ', 'R', 'E', 'T'] (.cons hhalt .nil) (.inl rfl) (by decide)
  rcases (same_assembly_iff htail).1 hsame with hstop | hidle
  · exact hstop hprogram
  · exact hidle (.instruction .ret ()) (by simp)

end State

end ByteAsm
