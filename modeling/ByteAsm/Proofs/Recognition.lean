import ByteAsm.Proofs.Grammar
import ByteAsm.Proofs.Listing

/-! What is read at the front of a text is a label if a label stands there, else the one statement whose
pattern has a match there, and else an unknown token. The match is always the longest one, and there is one
way only to take it apart. -/
namespace ByteAsm

open Text

namespace Source

open Pattern

variable {text rest : List Char}

namespace Form

theorem form?_of_read? {form : Form} {statement : Statement}
    (h : form.read? text = some (statement, rest)) : statement.form? = some form := by
  cases form with
  | label =>
    simp only [read?, Statement.label?, Option.bind_eq_bind, Option.bind_eq_some_iff, Prod.exists,
      Option.pure_def, Option.some.injEq, Prod.mk.injEq] at h
    obtain ⟨name, _, _, _, _, rfl, _⟩ := h
    rfl
  | data =>
    simp only [read?, Statement.data?, Option.bind_eq_bind, Option.bind_eq_some_iff, Prod.exists,
      Option.pure_def, Option.some.injEq, Prod.mk.injEq] at h
    obtain ⟨_, _, _, _, _, _, body, _, _, rfl, _⟩ := h
    rfl
  | instruction op =>
    obtain ⟨_, _, he⟩ := Option.map_eq_some_iff.1 h
    cases he
    rfl

theorem word_of_accepts {op : Opcode} {x : List Char} (h : (instruction op).pattern.Accepts x) :
    ∃ tail, x = op.word ++ tail ∧ (op.slots ≠ [] → ∃ c rest, tail = c :: rest ∧ isSpace c = true) := by
  obtain ⟨_, h⟩ := h
  obtain ⟨word, tail, _, _, rfl, _, hword, htail⟩ := matches_seq_iff.1 h
  obtain ⟨rfl, _⟩ := matches_text_iff.1 hword
  refine ⟨tail, rfl, ?_⟩
  intro hne
  obtain ⟨s, ss, hs⟩ := List.exists_cons_of_ne_nil hne
  rw [hs] at htail
  obtain ⟨gap, _, _, _, rfl, _, hgap, _⟩ := matches_seq_iff.1 htail
  obtain ⟨hne, hspace, _⟩ := matches_run_iff.1 hgap
  obtain ⟨c, gap, rfl⟩ := List.exists_cons_of_ne_nil hne
  exact ⟨c, _, rfl, hspace c List.mem_cons_self⟩

/-- Two instructions at the front of a text are the same: the shorter mnemonic ends at white space. -/
theorem eq_of_length_word_le {op other : Opcode} {x y : List Char} (hx : x <+: text) (hy : y <+: text)
    (hop : (instruction op).pattern.Accepts x) (hother : (instruction other).pattern.Accepts y)
    (hle : op.word.length ≤ other.word.length) : op = other := by
  obtain ⟨tail, rfl, htail⟩ := word_of_accepts hop
  obtain ⟨tail', rfl, _⟩ := word_of_accepts hother
  have hword := (List.prefix_append op.word tail).trans hx
  have hword' := (List.prefix_append other.word tail').trans hy
  obtain ⟨more, hmore⟩ := List.prefix_of_prefix_length_le hword hword' hle
  by_cases hs : op.slots = []
  · exact Opcode.eq_of_word_beginning hs (List.isPrefixOf_iff_prefix.2 ⟨more, hmore⟩)
  · cases more with
    | nil => exact Opcode.word_injective (by simpa using hmore)
    | cons d more =>
      obtain ⟨c, rest, rfl, hc⟩ := htail hs
      obtain ⟨left, rfl⟩ := hx
      obtain ⟨left', he⟩ := hy
      rw [← hmore] at he
      simp only [List.append_assoc, List.cons_append, List.append_cancel_left_eq, List.cons.injEq] at he
      have hd := isWord_of_isSpace hc
      rw [← he.1, other.isWord_of_mem_word d (by simp [← hmore])] at hd
      cases hd

theorem not_accepts_data {op : Opcode} {x y : List Char} (hx : x <+: text) (hy : y <+: text)
    (hop : (instruction op).pattern.Accepts x) : ¬ data.pattern.Accepts y := by
  rintro ⟨_, hdata⟩
  obtain ⟨tail, rfl, _⟩ := word_of_accepts hop
  obtain ⟨dot, _, _, _, rfl, _, hdot, _⟩ := matches_seq_iff.1 hdata
  obtain ⟨rfl, _⟩ := matches_text_iff.1 hdot
  obtain ⟨c, word, hw⟩ := List.exists_cons_of_ne_nil op.word_ne_nil
  obtain ⟨left, rfl⟩ := hx
  have hc := op.isWord_of_mem_word c (by simp [hw])
  simp only [hw, List.cons_append, List.cons_prefix_cons] at hy
  rw [← hy.1] at hc
  exact absurd hc (by decide)

/-- The patterns other than the one of labels exclude one another. -/
theorem eq_of_accepts {form other : Form} {x y : List Char} (hx : x <+: text) (hy : y <+: text)
    (hform : form.pattern.Accepts x) (hother : other.pattern.Accepts y) (hne : form ≠ label)
    (hne' : other ≠ label) : form = other := by
  cases form with
  | label => exact absurd rfl hne
  | data =>
    cases other with
    | label => exact absurd rfl hne'
    | data => rfl
    | instruction op => exact absurd hform (not_accepts_data hy hx hother)
  | instruction op =>
    cases other with
    | label => exact absurd rfl hne'
    | data => exact absurd hother (not_accepts_data hx hy hform)
    | instruction other =>
      rcases Nat.le_total op.word.length other.word.length with hle | hle
      · rw [eq_of_length_word_le hx hy hform hother hle]
      · rw [eq_of_length_word_le hy hx hother hform hle]

theorem mem_forms_iff {read : Statement.Reader} :
    read ∈ Statement.forms ↔ ∃ form : Form, form ≠ label ∧ form.read? = read := by
  constructor
  · intro h
    rcases List.mem_cons.1 h with rfl | h
    · exact ⟨data, by simp, rfl⟩
    · obtain ⟨op, _, rfl⟩ := List.mem_map.1 h
      exact ⟨instruction op, by simp, rfl⟩
  · rintro ⟨form, hne, rfl⟩
    cases form with
    | label => exact absurd rfl hne
    | data => exact List.mem_cons_self
    | instruction op => exact List.mem_cons_of_mem _ (List.mem_map_of_mem op.mem_trialOrder)

theorem accepts_of_read? {form : Form} {p : Statement × List Char} (h : form.read? text = some p) :
    ∃ x, x <+: text ∧ form.pattern.Accepts x := by
  obtain ⟨x, rfl, hx⟩ := form.reads.finds h
  exact ⟨x, List.prefix_append x _, _, hx.greedy.matches⟩

theorem eq_of_mem_forms {read other : Statement.Reader} {p q : Statement × List Char}
    (hread : read ∈ Statement.forms) (hother : other ∈ Statement.forms) (hp : read text = some p)
    (hq : other text = some q) : p = q := by
  obtain ⟨form, hform, rfl⟩ := mem_forms_iff.1 hread
  obtain ⟨form', hform', rfl⟩ := mem_forms_iff.1 hother
  obtain ⟨x, hx, haccepts⟩ := accepts_of_read? hp
  obtain ⟨y, hy, haccepts'⟩ := accepts_of_read? hq
  obtain rfl := eq_of_accepts hx hy haccepts haccepts' hform hform'
  exact Option.some.inj (hp.symm.trans hq)

theorem misses_iff {form : Form} : form.pattern.Misses text ↔ form.read? text = none := by
  constructor
  · intro h
    cases hr : form.read? text with
    | none => rfl
    | some p =>
      obtain ⟨x, hx, haccepts⟩ := accepts_of_read? hr
      exact absurd haccepts (h x hx)
  · exact form.reads.misses

theorem read?_of_form {form : Form} {p : Statement × List Char}
    (hfirst : form = label ∨ label.pattern.Misses text) (h : form.read? text = some p) :
    Statement.read? text = some p := by
  by_cases hlabel : form = label
  · rw [hlabel] at h
    simp [Statement.read?, show Statement.label? text = some p from h]
  · have hnone : Statement.label? text = none := misses_iff.1 (hfirst.resolve_left hlabel)
    have hmem : form.read? ∈ Statement.forms := mem_forms_iff.2 ⟨form, hlabel, rfl⟩
    have hforms : Statement.forms.findSome? (· text) = some p :=
      findSome?_eq_some_of_mem hmem h fun _ hread _ hfound => eq_of_mem_forms hread hmem hfound h
    simp [Statement.read?, hnone, hforms]

theorem read?_of_misses (h : ∀ form : Form, form.pattern.Misses text) :
    Statement.read? text = Statement.unknown? text := by
  have hnone : Statement.label? text = none := misses_iff.1 (h label)
  have hforms : Statement.forms.findSome? (· text) = none := by
    apply List.findSome?_eq_none_iff.2
    intro read hmem
    obtain ⟨form, _, rfl⟩ := mem_forms_iff.1 hmem
    exact misses_iff.1 (h form)
  simp [Statement.read?, hnone, hforms]

theorem read?_cases (text : List Char) :
    (∃ form p, (form = label ∨ label.pattern.Misses text) ∧ form.read? text = some p ∧
        Statement.read? text = some p) ∨
      (∀ form : Form, form.pattern.Misses text) ∧ Statement.read? text = Statement.unknown? text := by
  by_cases hall : ∀ form : Form, form.pattern.Misses text
  · exact .inr ⟨hall, read?_of_misses hall⟩
  · left
    have hread : ∃ form : Form, (form = label ∨ label.pattern.Misses text) ∧
        form.read? text ≠ none := by
      by_cases hlabel : label.pattern.Misses text
      · obtain ⟨form, hform⟩ := not_forall.1 hall
        exact ⟨form, .inr hlabel, fun h => hform (misses_iff.2 h)⟩
      · exact ⟨label, .inl rfl, fun h => hlabel (misses_iff.2 h)⟩
    obtain ⟨form, hfirst, hne⟩ := hread
    obtain ⟨p, hp⟩ := Option.ne_none_iff_exists'.1 hne
    exact ⟨form, p, hfirst, hp, read?_of_form hfirst hp⟩

end Form

/-- The front `x` of a text is taken for a statement of a form, with what its groups capture. -/
def Takes (text x : List Char) (form : Form) (captured : List (List Char)) : Prop :=
  ∃ statement rest, Statement.read? text = some (statement, rest) ∧ text = x ++ rest ∧
    statement.form? = some form ∧ statement.captured = captured

section Takes

variable {form : Form} {x : List Char} {o : List (List Char)}

theorem Takes.finds (h : Takes text x form o) :
    ∃ rest, text = x ++ rest ∧ form.pattern.Finds x rest o := by
  obtain ⟨statement, rest, hread, rfl, hform, rfl⟩ := h
  rcases Form.read?_cases (x ++ rest) with ⟨other, p, _, hother, he⟩ | ⟨_, he⟩
  · rw [hread] at he
    cases he
    rw [Form.form?_of_read? hother] at hform
    cases hform
    obtain ⟨y, hy, hfinds⟩ := form.reads.finds hother
    obtain rfl := List.append_cancel_right hy
    exact ⟨rest, rfl, hfinds⟩
  · rw [hread] at he
    obtain ⟨_, _, heq⟩ := Option.map_eq_some_iff.1 he.symm
    cases heq
    cases hform

theorem takes_of_accepts (hfirst : form = .label ∨ Form.label.pattern.Misses text) (hx : x <+: text)
    (haccepts : form.pattern.Accepts x) : ∃ y o, Takes text y form o := by
  cases hread : form.read? text with
  | none => exact absurd haccepts (form.reads.misses hread x hx)
  | some p =>
    obtain ⟨statement, rest⟩ := p
    obtain ⟨y, hy, _⟩ := form.reads.finds hread
    exact ⟨y, statement.captured, statement, rest, Form.read?_of_form hfirst hread, hy,
      Form.form?_of_read? hread, rfl⟩

/-- A form is taken exactly for its longest match. -/
theorem takes_iff_longest (hfirst : form = .label ∨ Form.label.pattern.Misses text) :
    Takes text x form o ↔ form.pattern.Longest text x ∧ form.pattern.Matches x o := by
  constructor
  · intro h
    obtain ⟨rest, rfl, hfinds⟩ := h.finds
    exact ⟨hfinds.longest, hfinds.greedy.matches⟩
  · rintro ⟨hlongest, hmatch⟩
    obtain ⟨y, o', htakes⟩ := takes_of_accepts hfirst hlongest.start hlongest.accepts
    obtain ⟨rest, rfl, hfinds⟩ := htakes.finds
    obtain ⟨rfl, rfl⟩ := hfinds.eq_of_longest hlongest hmatch
    exact htakes

theorem read?_unknown {token : List Char} (h : Statement.read? text = some (.unknown token, rest)) :
    (∀ form : Form, form.pattern.Misses text) ∧ text = token ++ rest ∧
      Pattern.token.Longest text token := by
  rcases Form.read?_cases text with ⟨form, p, _, hform, he⟩ | ⟨hall, he⟩
  · rw [h] at he
    cases he
    cases Form.form?_of_read? hform
  · rw [h] at he
    obtain ⟨⟨run, _⟩, hrun, heq⟩ := Option.map_eq_some_iff.1 he.symm
    cases heq
    obtain ⟨x, rfl, hfinds⟩ := (reads_run _).finds hrun
    obtain rfl := List.append_cancel_right (readRun?_eq_append hrun)
    exact ⟨hall, rfl, hfinds.longest⟩

theorem read?_of_all_miss (hskip : skipBlanks text = text) (hne : text ≠ [])
    (h : ∀ form : Form, form.pattern.Misses text) :
    ∃ token rest, Statement.read? text = some (.unknown token, rest) := by
  obtain ⟨c, tail, rfl⟩ := List.exists_cons_of_ne_nil hne
  have hc : isSpace c = false := by
    apply Bool.eq_false_iff.2
    intro hs
    have hblank : afterBlank? (c :: tail) = some (dropSpace tail) := by
      simp [afterBlank?, afterSpace?, hs]
    have hlen := (skipBlanks_suffix (dropSpace tail)).length_le
    rw [← skipBlanks_of_afterBlank? hblank, hskip] at hlen
    have hdrop := (dropSpace_suffix tail).length_le
    rw [List.length_cons] at hlen
    omega
  refine ⟨c :: tail.takeWhile (!isSpace ·), tail.dropWhile (!isSpace ·), ?_⟩
  rw [Form.read?_of_misses h]
  simp [Statement.unknown?, readRun?, hc]

end Takes

end Source

namespace State

open Source Pattern

/-- A step recognises the front of a text that starts with no blank. It is a label if a label stands there.
Without a label it is a string or an instruction exactly if a beginning of the text is in the language of its
pattern, and then it is the longest such beginning, taken apart in the only way, from left to right. If there
is none it is an unknown token, which reaches to the next white space. -/
theorem step_recognises {text : List Char} (hskip : skipBlanks text = text) :
    (∀ (s : State) statement rest, Statement.read? text = some (statement, rest) →
        (s.withText text).step = (s.execute statement).retext (some rest)) ∧
      (∀ form, form = .label ∨ Form.label.pattern.Misses text →
        ((∃ x o, Takes text x form o) ↔ ∃ x, x <+: text ∧ form.pattern.Accepts x) ∧
        ∀ x o, (Takes text x form o ↔ form.pattern.Longest text x ∧ form.pattern.Matches x o) ∧
          (Takes text x form o → (∀ o', form.pattern.Matches x o' → o' = o) ∧
            ∃ rest, text = x ++ rest ∧ form.pattern.Greedy x rest o)) ∧
      ((∃ token rest, Statement.read? text = some (.unknown token, rest)) ↔
        text ≠ [] ∧ ∀ form : Form, form.pattern.Misses text) ∧
      ∀ token rest, Statement.read? text = some (.unknown token, rest) →
        text = token ++ rest ∧ Pattern.token.Longest text token := by
  refine ⟨?_, ?_, ⟨?_, ?_⟩, ?_⟩
  · intro s statement rest hread
    rw [← hskip] at hread
    exact step_of_read? hread
  · intro form hfirst
    refine ⟨⟨?_, ?_⟩, ?_⟩
    · rintro ⟨x, o, htakes⟩
      obtain ⟨hlongest, _⟩ := (takes_iff_longest hfirst).1 htakes
      exact ⟨x, hlongest.start, hlongest.accepts⟩
    · rintro ⟨x, hx, haccepts⟩
      exact takes_of_accepts hfirst hx haccepts
    · intro x o
      refine ⟨takes_iff_longest hfirst, ?_⟩
      intro htakes
      obtain ⟨rest, rfl, hfinds⟩ := htakes.finds
      refine ⟨?_, rest, rfl, hfinds.greedy⟩
      intro o' hmatch
      exact (hfinds.eq_of_longest hfinds.longest hmatch).2
  · rintro ⟨token, rest, hread⟩
    refine ⟨?_, (read?_unknown hread).1⟩
    rintro rfl
    exact absurd (Statement.read?_suffix hread).2 (Nat.not_lt_zero _)
  · rintro ⟨hne, hall⟩
    exact read?_of_all_miss hskip hne hall
  · intro token rest hread
    exact (read?_unknown hread).2

/-- A zero with an `x` behind it that no digit follows. -/
theorem step_recognises_zero :
    skipBlanks "LDI R1 , 0xG".toList = "LDI R1 , 0xG".toList ∧
      Form.label.pattern.Misses "LDI R1 , 0xG".toList ∧
      (Form.instruction .ldi).pattern.Longest "LDI R1 , 0xG".toList "LDI R1 , 0".toList ∧
      (Form.instruction .ldi).pattern.Matches "LDI R1 , 0".toList [['1'], ['0']] := by
  have hskip : skipBlanks "LDI R1 , 0xG".toList = "LDI R1 , 0xG".toList := skipBlanks_of_none rfl
  have hlabel : Form.label.pattern.Misses "LDI R1 , 0xG".toList := Form.reads_label.misses rfl
  have htakes : Takes "LDI R1 , 0xG".toList "LDI R1 , 0".toList (.instruction .ldi) [['1'], ['0']] :=
    ⟨.instruction .ldi (['1'], .decimal ['0'], ()), "xG".toList, rfl, by decide, rfl, rfl⟩
  obtain ⟨_, hforms, _⟩ := step_recognises hskip
  exact ⟨hskip, hlabel, ((hforms _ (.inr hlabel)).2 _ _).1.1 htakes⟩

end State

end ByteAsm
