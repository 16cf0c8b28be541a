import ByteAsm.Proofs.Escaping
import ByteAsm.Proofs.Listing
import ByteAsm.Proofs.Spelling

/-! Programs as they are written: labels, strings and instructions, each with white space or
comments behind it. The statements of such a text are the ones that were written, and whatever
follows it does not change them. -/
namespace ByteAsm

open Source Text

/-- The form of a statement: a label with its colon, a string, or an instruction. -/
def Source.Statement.Matches : Statement → List Char → Prop
  | .label name, text => IsName name.toList ∧ text = name.toList ++ [':']
  | .data body, text =>
    Body body ∧ ∃ gap, SpaceRun gap ∧
      text = ['.', 'a', 's', 'c', 'i', 'i'] ++ (gap ++ '"' :: (body ++ ['"']))
  | .instruction op operands, text =>
    ∃ rest, Operands.Matches op.slots SpaceRun operands rest ∧ text = op.word ++ rest
  | .unknown _, _ => False

inductive Item
  | label (name : String)
  | ascii (text : List Char)
  | instruction (op : Opcode) (operands : Operands op.slots)

namespace Item

def statement : Item → Statement
  | label name => .label name
  | ascii text => .data (escape text)
  | instruction op operands => .instruction op operands

/-- Strings are ASCII and numbers can be taken. A no-operation is not an item of a program. -/
def Valid : Item → Prop
  | label _ => True
  | ascii text => ∀ c ∈ text, c.toNat < 0x80
  | instruction op operands => op ≠ .nop ∧ Operands.Valid op.slots operands

def Spelled (item : Item) (text : List Char) : Prop := item.statement.Matches text ∧ item.Valid

end Item

/-- A white space character, or a comment with the end of its line. -/
inductive Blank : List Char → Prop
  | space {c : Char} (hc : isSpace c = true) : Blank [c]
  | comment {mark body : List Char} (hmark : mark = ['#'] ∨ mark = ['/', '/'])
      (hbody : '\n' ∉ body) : Blank (mark ++ (body ++ ['\n']))

inductive Separator : List Char → Prop
  | blank {first : List Char} (hfirst : Blank first) : Separator first
  | cons {first gap : List Char} (hfirst : Blank first) (hgap : Separator gap) :
      Separator (first ++ gap)

/-- Statements one after the other. `Gap` says what may stand between a statement and the rest of the
text. -/
inductive Listed (Gap : List Char → List Char → Prop) : List Statement → List Char → Prop
  | nil : Listed Gap [] []
  | cons {statement : Statement} {list : List Statement} {front gap rest : List Char}
      (hfront : statement.Matches front) (hgap : Gap gap rest) (hrest : Listed Gap list rest) :
      Listed Gap (statement :: list) (front ++ (gap ++ rest))

/-- A text lists statements, with a separator behind each of them. -/
abbrev Lists : List Statement → List Char → Prop := Listed fun gap _ => Separator gap

/-- A program is written item by item, with a separator behind each of them. -/
structure Written (items : List Item) (text : List Char) : Prop where
  lists : Lists (items.map Item.statement) text
  valid : ∀ item ∈ items, item.Valid

section

variable {text rest gap : List Char} {c : Char}

theorem skipBlanks_dropSpace (text : List Char) : skipBlanks (dropSpace text) = skipBlanks text := by
  cases text with
  | nil => rfl
  | cons c text =>
    by_cases hc : isSpace c = true
    · have hspace : afterBlank? (c :: text) = some (dropSpace text) := by
        simp [afterBlank?, afterSpace?, hc]
      rw [skipBlanks_of_afterBlank? hspace, dropSpace, List.dropWhile_cons_of_pos hc]
      rfl
    · rw [dropSpace, List.dropWhile_cons_of_neg hc]

theorem afterLineComment?_of_body {body : List Char}
    (h : lineCommentBody? text = some (body ++ '\n' :: rest)) (hbody : '\n' ∉ body) :
    afterLineComment? text = some rest := by
  have hline : (body ++ '\n' :: rest).dropWhile (· ≠ '\n') = '\n' :: rest := by
    apply dropWhile_run
    · intro d hd
      simp only [decide_eq_true_eq]
      rintro rfl
      exact hbody hd
    · intro d hd
      cases hd
      decide
  simp only [afterLineComment?, h, hline]

theorem Blank.skipBlanks_append (h : Blank text) (rest : List Char) :
    skipBlanks (text ++ rest) = skipBlanks rest := by
  cases h with
  | @space c hc =>
    have hspace : afterBlank? (c :: rest) = some (dropSpace rest) := by
      simp [afterBlank?, afterSpace?, hc]
    exact (skipBlanks_of_afterBlank? hspace).trans (skipBlanks_dropSpace rest)
  | @comment mark body hmark hbody =>
    have hstart : lineCommentBody? (mark ++ (body ++ ['\n']) ++ rest) =
          some (body ++ '\n' :: rest) ∧ afterSpace? (mark ++ (body ++ ['\n']) ++ rest) = none := by
      rcases hmark with rfl | rfl
      · simp [lineCommentBody?, afterSpace?, show isSpace '#' = false by decide]
      · simp [lineCommentBody?, afterSpace?, show isSpace '/' = false by decide]
    have hcomment : afterBlank? (mark ++ (body ++ ['\n']) ++ rest) = some rest := by
      rw [afterBlank?, hstart.2, afterLineComment?_of_body hstart.1 hbody]
      rfl
    exact skipBlanks_of_afterBlank? hcomment

theorem Separator.skipBlanks_append (h : Separator gap) (rest : List Char) :
    skipBlanks (gap ++ rest) = skipBlanks rest := by
  induction h with
  | blank hfirst => exact hfirst.skipBlanks_append rest
  | cons hfirst _ ih => rw [List.append_assoc, hfirst.skipBlanks_append, ih]

theorem Blank.breaks (h : Blank text) (rest : List Char) : Breaks (text ++ rest) := by
  intro d hd
  cases h with
  | space hc =>
    cases hd
    simp [isBreak, hc]
  | comment hmark hbody =>
    rcases hmark with rfl | rfl <;> cases hd <;> decide

theorem Separator.breaks (h : Separator gap) (rest : List Char) : Breaks (gap ++ rest) := by
  cases h with
  | blank hfirst => exact hfirst.breaks rest
  | cons hfirst _ =>
    rw [List.append_assoc]
    exact hfirst.breaks _

theorem Source.SpaceRun.separator (h : SpaceRun gap) : Separator gap := by
  obtain ⟨hne, hspace⟩ := h
  induction gap with
  | nil => exact absurd rfl hne
  | cons c gap ih =>
    obtain ⟨hc, hgap⟩ := List.forall_mem_cons.1 hspace
    cases gap with
    | nil => exact .blank (.space hc)
    | cons d gap => exact .cons (.space hc) (ih (List.cons_ne_nil d gap) hgap)

theorem read?_data {body : List Char} (hbody : Body body) (hgap : SpaceRun gap) (rest : List Char) :
    Statement.read? (['.', 'a', 's', 'c', 'i', 'i'] ++ (gap ++ '"' :: (body ++ '"' :: rest))) =
      some (.data body, rest) := by
  have hquote : afterSpace? (gap ++ '"' :: (body ++ '"' :: rest)) =
      some ('"' :: (body ++ '"' :: rest)) := by
    apply afterSpace?_append hgap
    intro c hc
    cases hc
    decide
  have hlabel : ∀ text, Statement.label? ('.' :: text) = none := by
    intro text
    simp [Statement.label?, readName?, show isNameStart '.' = false by decide]
  simp [Statement.read?, hlabel, Statement.forms, Statement.data?, after?, hquote,
    hbody.readBody?_append]

namespace Source.Statement.Matches

variable {statement : Statement}

/-- What has the form of a statement is read as this statement, up to the blanks behind it. -/
theorem read?_append (h : statement.Matches text) (hrest : Breaks rest) :
    ∃ left, Statement.read? (text ++ rest) = some (statement, left) ∧
      skipBlanks left = skipBlanks rest := by
  cases statement with
  | label name =>
    obtain ⟨hname, rfl⟩ := h
    refine ⟨rest, ?_, rfl⟩
    rw [List.append_assoc]
    exact Statement.read?_label hname rest
  | data body =>
    obtain ⟨hbody, gap, hgap, rfl⟩ := h
    refine ⟨rest, ?_, rfl⟩
    have hread := read?_data hbody hgap rest
    simpa using hread
  | instruction op operands =>
    obtain ⟨tail, hops, rfl⟩ := h
    rw [List.append_assoc]
    refine ⟨_, Statement.read?_instruction hops hrest, ?_⟩
    split
    · exact skipBlanks_dropSpace rest
    · rfl
  | unknown token => cases h

theorem skipBlanks_append (h : statement.Matches text) (rest : List Char) :
    skipBlanks (text ++ rest) = text ++ rest := by
  have hhead : ∃ c tail, text = c :: tail ∧ (isWord c = true ∨ c = '.') := by
    cases statement with
    | label name =>
      obtain ⟨⟨c, tail, he, hc, _⟩, rfl⟩ := h
      exact ⟨c, tail ++ [':'], by rw [he]; rfl, .inl (isWord_of_isNameStart hc)⟩
    | data body =>
      obtain ⟨_, gap, _, rfl⟩ := h
      exact ⟨_, _, rfl, .inr rfl⟩
    | instruction op operands =>
      obtain ⟨tail, _, rfl⟩ := h
      obtain ⟨c, word, hw⟩ := List.exists_cons_of_ne_nil op.word_ne_nil
      exact ⟨c, word ++ tail, by rw [hw]; rfl, .inl (op.isWord_of_mem_word c (by simp [hw]))⟩
    | unknown token => cases h
  obtain ⟨c, tail, rfl, hc⟩ := hhead
  have hbreak : isBreak c = false := by
    rcases hc with hword | rfl
    · apply Bool.eq_false_iff.2
      intro hb
      rw [isWord_of_isBreak hb] at hword
      cases hword
    · decide
  simp only [isBreak, Bool.or_eq_false_iff, decide_eq_false_iff_not, List.mem_cons, not_or] at hbreak
  obtain ⟨hspace, hhash, hslash, _⟩ := hbreak
  apply skipBlanks_of_none
  simp [afterBlank?, afterSpace?, hspace, afterLineComment?, lineCommentBody?, hhash, hslash,
    afterBlockComment?]

/-- Whatever stands behind its separator, a statement is read first, and the reading goes on there. -/
theorem read?_skipBlanks (h : statement.Matches text) (hgap : Separator gap) (rest : List Char) :
    ∃ left, Statement.read? (skipBlanks (text ++ (gap ++ rest))) = some (statement, left) ∧
      skipBlanks left = skipBlanks rest := by
  obtain ⟨left, hread, hleft⟩ := h.read?_append (hgap.breaks rest)
  rw [h.skipBlanks_append]
  exact ⟨left, hread, hleft.trans (hgap.skipBlanks_append rest)⟩

end Source.Statement.Matches

/-- The statements of a listing come first, if a text may follow the gaps. -/
theorem Listed.statements_append {Gap : List Char → List Char → Prop} {list : List Statement}
    (h : Listed Gap list text)
    (hgap : ∀ {gap tail}, Gap gap tail → Breaks (gap ++ (tail ++ rest)) ∧
      skipBlanks (gap ++ (tail ++ rest)) = skipBlanks (tail ++ rest)) :
    Source.statements (text ++ rest) = list ++ Source.statements rest := by
  induction h with
  | nil => rfl
  | @cons statement list front gap tail hfront hbehind _ ih =>
    obtain ⟨hbreaks, hskip⟩ := hgap hbehind
    obtain ⟨left, hread, hleft⟩ := hfront.read?_append hbreaks
    rw [← hfront.skipBlanks_append] at hread
    rw [List.append_assoc, List.append_assoc, statements_of_read? hread,
      statements_congr (hleft.trans hskip), ih]
    rfl

theorem Lists.cons {statement : Statement} {list : List Statement} {front : List Char}
    (hfront : statement.Matches front) (hgap : Separator gap) (hrest : Lists list rest) :
    Lists (statement :: list) (front ++ (gap ++ rest)) :=
  Listed.cons hfront hgap hrest

theorem Lists.statements_append {list : List Statement} (h : Lists list text) (rest : List Char) :
    Source.statements (text ++ rest) = list ++ Source.statements rest :=
  Listed.statements_append h fun hgap => ⟨hgap.breaks _, hgap.skipBlanks_append _⟩

theorem Lists.statements {list : List Statement} (h : Lists list text) :
    Source.statements text = list := by
  simpa using h.statements_append []

theorem Written.nil : Written [] [] := ⟨.nil, by simp⟩

theorem Written.cons {item : Item} {items : List Item} {front : List Char} (hitem : item.Spelled front)
    (hgap : Separator gap) (hrest : Written items rest) :
    Written (item :: items) (front ++ (gap ++ rest)) where
  lists := .cons hitem.1 hgap hrest.lists
  valid := List.forall_mem_cons.2 ⟨hitem.2, hrest.valid⟩

theorem Written.statements {items : List Item} (h : Written items text) :
    Source.statements text = items.map Item.statement :=
  h.lists.statements

end

end ByteAsm
