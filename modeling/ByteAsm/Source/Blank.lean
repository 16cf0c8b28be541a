import ByteAsm.Text.Space

/-! Blanks: white space and comments, which separate the statements of a source text.
`skipBlanks` drops all of them at the front of a text. -/
namespace ByteAsm.Source

open Text

def after? : List Char → List Char → Option (List Char)
  | [], text => some text
  | _ :: _, [] => none
  | c :: cs, d :: text => if c = d then after? cs text else none

def afterLast? (mark text : List Char) : Option (List Char) := go none text
where
  go (found : Option (List Char)) : List Char → Option (List Char)
    | [] => found
    | c :: rest => go ((after? mark (c :: rest)).or found) rest

def lineCommentBody? : List Char → Option (List Char)
  | '#' :: body => some body
  | '/' :: '/' :: body => some body
  | _ => none

/-- A line comment runs through the end of its line. On a last line without an end it runs
through the last `$` of the line, and without one there is no comment. -/
def afterLineComment? (text : List Char) : Option (List Char) :=
  match lineCommentBody? text with
  | none => none
  | some body =>
    match body.dropWhile (· ≠ '\n') with
    | _ :: rest => some rest
    | [] => afterLast? ['$'] body

/-- A block comment runs from `/*` through the last `*/` of the text. -/
def afterBlockComment? : List Char → Option (List Char)
  | '/' :: '*' :: body => afterLast? ['*', '/'] body
  | _ => none

def afterSpace? : List Char → Option (List Char)
  | [] => none
  | c :: rest => if isSpace c then some (dropSpace rest) else none

def afterBlank? (text : List Char) : Option (List Char) :=
  afterSpace? text <|> afterLineComment? text <|> afterBlockComment? text

theorem dropSpace_suffix (text : List Char) : dropSpace text <:+ text := List.dropWhile_suffix _

theorem after?_eq_some_iff {start text rest : List Char} :
    after? start text = some rest ↔ text = start ++ rest := by
  fun_induction after? start text <;> grind

theorem after?_append (start rest : List Char) : after? start (start ++ rest) = some rest :=
  after?_eq_some_iff.2 rfl

theorem after?_suffix {start text rest : List Char} (h : after? start text = some rest) :
    rest <:+ text :=
  after?_eq_some_iff.1 h ▸ List.suffix_append start rest

section

variable {mark text rest : List Char} {found : Option (List Char)}

theorem afterLast?_go_eq_append (h : afterLast?.go mark found text = some rest) :
    found = some rest ∨ ∃ front, text = front ++ (mark ++ rest) := by
  induction text generalizing found with
  | nil => exact .inl h
  | cons c text ih =>
    rcases ih h with h | ⟨front, rfl⟩
    · rcases Option.or_eq_some_iff.1 h with h | ⟨_, h⟩
      · exact .inr ⟨[], by rw [List.nil_append, after?_eq_some_iff.1 h]⟩
      · exact .inl h
    · exact .inr ⟨c :: front, rfl⟩

theorem afterLast?_eq_append (h : afterLast? mark text = some rest) :
    ∃ front, text = front ++ (mark ++ rest) := by
  rcases afterLast?_go_eq_append h with h | h
  · cases h
  · exact h

theorem afterLast?_go_of_absent (found : Option (List Char)) (h : ¬ mark <:+: text) :
    afterLast?.go mark found text = found := by
  induction text generalizing found with
  | nil => rfl
  | cons c text ih =>
    rw [List.infix_cons_iff, not_or] at h
    have hnone : after? mark (c :: text) = none := by
      cases ha : after? mark (c :: text) with
      | none => rfl
      | some rest => exact absurd ⟨rest, (after?_eq_some_iff.1 ha).symm⟩ h.1
    rw [afterLast?.go, hnone, Option.none_or, ih found h.2]

theorem afterLast?_go_append {c : Char} {cs : List Char} (found : Option (List Char))
    (front rest : List Char) :
    afterLast?.go (c :: cs) found (front ++ (c :: cs ++ rest)) =
      afterLast?.go (c :: cs) (some rest) (cs ++ rest) := by
  induction front generalizing found with
  | nil =>
    have hfirst : after? (c :: cs) (c :: (cs ++ rest)) = some rest := after?_append (c :: cs) rest
    rw [List.nil_append, List.cons_append, afterLast?.go, hfirst, Option.some_or]
  | cons d front ih => exact ih _

end

theorem suffix_cons_lt {c : Char} {text rest : List Char} (h : rest <:+ text) :
    rest <:+ c :: text ∧ rest.length < (c :: text).length := by
  refine ⟨h.trans (List.suffix_cons c text), ?_⟩
  have := h.length_le
  simp only [List.length_cons]
  omega

theorem afterSpace?_suffix {text rest : List Char} (h : afterSpace? text = some rest) :
    rest <:+ text ∧ rest.length < text.length := by
  cases text with
  | nil => cases h
  | cons c tail =>
    simp only [afterSpace?] at h
    split at h
    · cases h
      exact suffix_cons_lt (dropSpace_suffix tail)
    · cases h

theorem lineCommentBody?_suffix {text body rest : List Char}
    (h : lineCommentBody? text = some body) (hr : rest <:+ body) :
    rest <:+ text ∧ rest.length < text.length := by
  unfold lineCommentBody? at h
  split at h
  · cases h
    exact suffix_cons_lt hr
  · cases h
    exact suffix_cons_lt (suffix_cons_lt hr).1
  · cases h

theorem afterLineComment?_suffix {text rest : List Char} (h : afterLineComment? text = some rest) :
    rest <:+ text ∧ rest.length < text.length := by
  unfold afterLineComment? at h
  split at h
  · cases h
  · rename_i body hb
    split at h
    · rename_i c tail hd
      cases h
      have htail : c :: rest <:+ body := hd ▸ List.dropWhile_suffix _
      exact lineCommentBody?_suffix hb ((List.suffix_cons c rest).trans htail)
    · obtain ⟨front, rfl⟩ := afterLast?_eq_append h
      exact lineCommentBody?_suffix hb ((List.suffix_append _ rest).trans (List.suffix_append front _))

theorem afterBlockComment?_suffix {text rest : List Char}
    (h : afterBlockComment? text = some rest) : rest <:+ text ∧ rest.length < text.length := by
  unfold afterBlockComment? at h
  split at h
  · obtain ⟨front, rfl⟩ := afterLast?_eq_append h
    have hsuffix := (List.suffix_append ['*', '/'] rest).trans (List.suffix_append front _)
    exact suffix_cons_lt (suffix_cons_lt hsuffix).1
  · cases h

theorem afterBlank?_suffix {text rest : List Char} (h : afterBlank? text = some rest) :
    rest <:+ text ∧ rest.length < text.length := by
  simp only [afterBlank?, Option.orElse_eq_orElse, Option.orElse_eq_or, Option.or_eq_some_iff] at h
  rcases h with h | ⟨_, h | ⟨_, h⟩⟩
  · exact afterSpace?_suffix h
  · exact afterLineComment?_suffix h
  · exact afterBlockComment?_suffix h

def skipBlanks (text : List Char) : List Char :=
  match _ : afterBlank? text with
  | some rest => skipBlanks rest
  | none => text
termination_by text.length
decreasing_by exact (afterBlank?_suffix ‹_›).2

theorem skipBlanks_of_afterBlank? {text rest : List Char} (h : afterBlank? text = some rest) :
    skipBlanks text = skipBlanks rest := by
  rw [skipBlanks]
  split
  · rename_i r hr
    rw [h, Option.some.injEq] at hr
    rw [hr]
  · rename_i hr
    simp [h] at hr

theorem skipBlanks_of_none {text : List Char} (h : afterBlank? text = none) :
    skipBlanks text = text := by
  rw [skipBlanks]
  split
  · rename_i r hr
    simp [h] at hr
  · rfl

theorem skipBlanks_suffix (text : List Char) : skipBlanks text <:+ text := by
  fun_induction skipBlanks text with
  | case1 text rest h ih => exact ih.trans (afterBlank?_suffix h).1
  | case2 text => exact List.suffix_refl text

/-- No blank is left at the front. -/
theorem afterBlank?_skipBlanks (text : List Char) : afterBlank? (skipBlanks text) = none := by
  fun_induction skipBlanks text with
  | case1 text rest h ih => exact ih
  | case2 text h => exact h

end ByteAsm.Source
