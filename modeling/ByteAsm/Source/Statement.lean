import ByteAsm.Source.Operand

/-! The statements of a source text. A statement is read off the front of a text that starts
with no blank, and anything that is no statement is read as an unknown token, so that reading
fails on the empty text and on a leading space only. -/
namespace ByteAsm.Source

open Text

inductive Statement
  | label (name : String)
  | data (body : List Char)
  | instruction (op : Opcode) (operands : Operands op.slots)
  | unknown (token : List Char)

/-- The body of a string behind its opening quote, and the text behind the closing one. A
backslash keeps the next character in the body, which must not be a line end. -/
def readBody? (text : List Char) : Option (List Char × List Char) := go [] text
where
  go (body : List Char) : List Char → Option (List Char × List Char)
    | [] => none
    | '"' :: rest => some (body.reverse, rest)
    | '\\' :: rest =>
      match rest with
      | [] => none
      | c :: rest => if c = '\n' then none else go (c :: '\\' :: body) rest
    | c :: rest => go (c :: body) rest

namespace Statement

abbrev Reader := List Char → Option (Statement × List Char)

def label? : Reader := fun text => do
  let (name, rest) ← readName? text
  let rest ← after? [':'] rest
  return (label name, rest)

def data? : Reader := fun text => do
  let text ← after? ['.', 'a', 's', 'c', 'i', 'i'] text
  let text ← afterSpace? text
  let (body, rest) ← readBody? (← after? ['"'] text)
  return (data body, rest)

def instruction? (op : Opcode) : Reader := fun text =>
  (readInstruction? op text).map fun (operands, rest) => (instruction op operands, rest)

/-- The characters up to the next space. -/
def unknown? : Reader := fun text =>
  (readRun? (!isSpace ·) text).map fun (token, rest) => (unknown token, rest)

def forms : List Reader := data? :: Opcode.trialOrder.map instruction?

/-- Read one statement: a label if there is one, else the first form that fits, else an
unknown token. -/
def read? : Reader := fun text =>
  label? text <|> forms.findSome? (· text) <|> unknown? text

end Statement

theorem readBody?_go_suffix {body text found rest : List Char}
    (h : readBody?.go body text = some (found, rest)) : rest <:+ text := by
  fun_induction readBody?.go body text with
  | case1 => simp at h
  | case2 body tail =>
    simp only [Option.some.injEq, Prod.mk.injEq] at h
    exact h.2 ▸ List.suffix_cons _ _
  | case3 => simp at h
  | case4 => simp at h
  | case5 body c tail _ ih =>
    exact (ih h).trans ((List.suffix_cons _ _).trans (List.suffix_cons _ _))
  | case6 body c tail _ _ ih => exact (ih h).trans (List.suffix_cons _ _)

namespace Statement

variable {text rest : List Char} {s : Statement}

theorem label?_suffix (h : label? text = some (s, rest)) :
    rest <:+ text ∧ rest.length < text.length := by
  simp only [label?, Option.bind_eq_bind, Option.bind_eq_some_iff, Prod.exists, Option.pure_def,
    Option.some.injEq, Prod.mk.injEq] at h
  obtain ⟨name, r, hr, q, hq, _, rfl⟩ := h
  refine ⟨(after?_suffix hq).trans (readName?_suffix hr), ?_⟩
  have := (readName?_suffix hr).length_le
  rw [after?_eq_some_iff.1 hq] at this
  simp only [List.length_append, List.length_cons, List.length_nil] at this
  omega

theorem data?_suffix (h : data? text = some (s, rest)) :
    rest <:+ text ∧ rest.length < text.length := by
  simp only [data?, Option.bind_eq_bind, Option.bind_eq_some_iff, Prod.exists, Option.pure_def,
    Option.some.injEq, Prod.mk.injEq] at h
  obtain ⟨t, ht, u, hu, v, hv, body, r, hr, _, rfl⟩ := h
  have hsuffix := (readBody?_go_suffix hr).trans ((after?_suffix hv).trans (afterSpace?_suffix hu).1)
  refine ⟨hsuffix.trans (after?_suffix ht), ?_⟩
  have := hsuffix.length_le
  rw [after?_eq_some_iff.1 ht]
  simp only [List.length_append, List.length_cons, List.length_nil]
  omega

theorem instruction?_suffix {op : Opcode} (h : instruction? op text = some (s, rest)) :
    rest <:+ text ∧ rest.length < text.length := by
  simp only [instruction?, Option.map_eq_some_iff, Prod.mk.injEq, Prod.exists] at h
  obtain ⟨vs, r, hr, _, rfl⟩ := h
  exact readInstruction?_suffix hr

theorem unknown?_suffix (h : unknown? text = some (s, rest)) :
    rest <:+ text ∧ rest.length < text.length := by
  simp only [unknown?, Option.map_eq_some_iff, Prod.mk.injEq, Prod.exists] at h
  obtain ⟨token, r, hr, _, rfl⟩ := h
  refine ⟨readRun?_suffix hr, ?_⟩
  obtain ⟨hne, htake, hdrop⟩ := readRun?_eq_some_iff.1 hr
  have hlen := congrArg List.length (List.takeWhile_append_dropWhile (p := (!isSpace ·)) (l := text))
  rw [htake, hdrop, List.length_append] at hlen
  have := List.length_pos_iff.2 hne
  omega

/-- A statement takes at least one character, and leaves an end of the text. -/
theorem read?_suffix (h : read? text = some (s, rest)) :
    rest <:+ text ∧ rest.length < text.length := by
  simp only [read?, Option.orElse_eq_orElse, Option.orElse_eq_or, Option.or_eq_some_iff] at h
  rcases h with h | ⟨_, h | ⟨_, h⟩⟩
  · exact label?_suffix h
  · obtain ⟨form, hform, hr⟩ := List.exists_of_findSome?_eq_some h
    simp only [forms, List.mem_cons, List.mem_map] at hform
    rcases hform with rfl | ⟨m, _, rfl⟩
    · exact data?_suffix hr
    · exact instruction?_suffix hr
  · exact unknown?_suffix h

end Statement

end ByteAsm.Source
