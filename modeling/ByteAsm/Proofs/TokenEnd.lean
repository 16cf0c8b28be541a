import ByteAsm.Proofs.Recognition
import ByteAsm.Proofs.Written

/-! Where an instruction ends. Its operands are read as far as they go, and nothing is asked of the text
behind the last of them but that it does not make this operand longer. Only a branch ends with a word. -/
namespace ByteAsm

open Text

namespace Source

variable {text rest : List Char}

theorem not_exists_head?_dropWhile (p : Char → Bool) (text : List Char) :
    ¬ ∃ c ∈ (text.dropWhile p).head?, p c = true := by
  rintro ⟨c, hc, hp⟩
  rw [Pattern.head?_dropWhile p text c hc] at hp
  cases hp

theorem readRun?_stops {p : Char → Bool} {run : List Char} (h : readRun? p text = some (run, rest)) :
    (run ≠ [] ∧ ∀ c ∈ run, p c = true) ∧ ¬ ∃ c ∈ rest.head?, p c = true := by
  obtain ⟨hne, rfl, rfl⟩ := readRun?_eq_some_iff.1 h
  exact ⟨⟨hne, List.all_eq_true.1 List.all_takeWhile⟩, not_exists_head?_dropWhile p text⟩

theorem readRegister?_eq_some {digits : List Char} (h : readRegister? text = some (digits, rest)) :
    text = 'R' :: (digits ++ rest) ∧ Digits digits ∧ ¬ ∃ c ∈ rest.head?, isDigit c = true := by
  obtain ⟨tail, htail, hrun⟩ := Option.bind_eq_some_iff.1 h
  refine ⟨?_, readRun?_stops hrun⟩
  rw [after?_eq_some_iff.1 htail, readRun?_eq_append hrun]
  rfl

theorem readPair?_eq_some {p : RegisterPair} (h : readPair? text = some (p, rest)) :
    text = pairText p ++ rest := by
  unfold readPair? at h
  split at h
  · rename_i hfirst
    cases h
    exact after?_eq_some_iff.1 hfirst
  · obtain ⟨tail, hsecond, he⟩ := Option.map_eq_some_iff.1 h
    cases he
    exact after?_eq_some_iff.1 hsecond

theorem readParens?_eq_some {α : Type} {read : List Char → Option (α × List Char)} {a : α}
    (h : readParens? read text = some (a, rest)) :
    ∃ inner, text = '(' :: inner ∧ read inner = some (a, ')' :: rest) := by
  simp only [readParens?, Option.bind_eq_bind, Option.bind_eq_some_iff, Prod.exists,
    Option.pure_def, Option.some.injEq, Prod.mk.injEq] at h
  obtain ⟨inner, hopen, b, tail, hread, last, hclose, rfl, rfl⟩ := h
  refine ⟨inner, after?_eq_some_iff.1 hopen, ?_⟩
  rw [hread, after?_eq_some_iff.1 hclose]
  rfl

theorem readLiteral?_eq_some {w : Literal} (h : readLiteral? text = some (w, rest)) :
    ∃ front, text = front ++ rest ∧ LiteralMatches w front ∧ ¬ LiteralExtends w rest := by
  unfold readLiteral? at h
  split at h
  · rename_i digits _ hhex
    cases h
    obtain ⟨tail, hstart, hrun⟩ := Option.bind_eq_some_iff.1 hhex
    obtain ⟨⟨hne, hdigits⟩, hstop⟩ := readRun?_stops hrun
    refine ⟨'0' :: 'x' :: digits, ?_, ⟨hne, hdigits, rfl⟩, hstop⟩
    rw [after?_eq_some_iff.1 hstart, readRun?_eq_append hrun]
    rfl
  · rename_i hhex
    obtain ⟨⟨digits, _⟩, hrun, he⟩ := Option.map_eq_some_iff.1 h
    cases he
    obtain ⟨hdigits, hstop⟩ := readRun?_stops hrun
    have htext := readRun?_eq_append hrun
    refine ⟨digits, htext, ⟨hdigits, rfl⟩, not_or.2 ⟨hstop, ?_⟩⟩
    rintro ⟨rfl, c, tail, rfl, hc⟩
    subst htext
    simp [after?, readRun?, hc] at hhex

theorem Slot.matches_of_read? {s : Slot} {v : s.Value} (h : s.read? text = some (v, rest)) :
    ∃ front, text = front ++ rest ∧ s.Matches v front ∧ ¬ s.Extends v rest := by
  cases s with
  | register =>
    obtain ⟨rfl, hdigits, hstop⟩ := readRegister?_eq_some h
    exact ⟨'R' :: v, rfl, ⟨hdigits, rfl⟩, hstop⟩
  | indirect =>
    obtain ⟨inner, rfl, hread⟩ := readParens?_eq_some h
    obtain ⟨rfl, hdigits, _⟩ := readRegister?_eq_some hread
    exact ⟨'(' :: 'R' :: (v ++ [')']), by simp, ⟨hdigits, rfl⟩, id⟩
  | pair =>
    obtain rfl := readPair?_eq_some h
    exact ⟨pairText v, rfl, rfl, id⟩
  | indirectPair =>
    obtain ⟨inner, rfl, hread⟩ := readParens?_eq_some h
    obtain rfl := readPair?_eq_some hread
    exact ⟨'(' :: (pairText v ++ [')']), by simp, rfl, id⟩
  | literal => exact readLiteral?_eq_some h
  | name =>
    cases text with
    | nil => cases h
    | cons c text =>
      simp only [Slot.read?, readName?] at h
      split at h
      · rename_i hc
        cases h
        have hname : IsName (c :: text.takeWhile isWord) :=
          ⟨c, _, rfl, hc, List.all_eq_true.1 List.all_takeWhile⟩
        refine ⟨c :: text.takeWhile isWord, by simp, ⟨?_, by simp⟩, not_exists_head?_dropWhile isWord text⟩
        rwa [String.toList_ofList]
      · cases h

theorem afterSpace?_eq_some (h : afterSpace? text = some rest) :
    ∃ gap, text = gap ++ rest ∧ SpaceRun gap := by
  cases text with
  | nil => cases h
  | cons c text =>
    simp only [afterSpace?] at h
    split at h
    · rename_i hc
      cases h
      refine ⟨c :: text.takeWhile isSpace, by simp [dropSpace], by simp, ?_⟩
      intro d hd
      rcases List.mem_cons.1 hd with rfl | hd
      · exact hc
      · exact List.all_eq_true.1 List.all_takeWhile d hd
    · cases h

theorem afterComma?_eq_some (h : afterComma? text = some rest) :
    ∃ gap, text = gap ++ rest ∧ CommaGap gap := by
  obtain ⟨tail, hcomma, rfl⟩ := Option.map_eq_some_iff.1 h
  have hall : ∀ {text : List Char}, ∀ c ∈ text.takeWhile isSpace, isSpace c = true :=
    List.all_eq_true.1 List.all_takeWhile
  refine ⟨text.takeWhile isSpace ++ ',' :: tail.takeWhile isSpace, ?_, _, _, rfl, hall, hall⟩
  have hdrop : text.dropWhile isSpace = ',' :: tail := after?_eq_some_iff.1 hcomma
  calc text = text.takeWhile isSpace ++ text.dropWhile isSpace := by simp
    _ = text.takeWhile isSpace ++ ',' :: (tail.takeWhile isSpace ++ dropSpace tail) := by
      rw [hdrop, dropSpace, List.takeWhile_append_dropWhile]
    _ = _ := by simp

/-- Operands are read as they are written, and what follows does not make the last of them longer. -/
theorem Operands.matches_of_read? {slots : List Slot} {Lead : List Char → Prop}
    {lead : List Char → Option (List Char)} {vs : Operands slots}
    (hlead : ∀ {text rest}, lead text = some rest → ∃ gap, text = gap ++ rest ∧ Lead gap)
    (h : Operands.read? slots lead text = some (vs, rest)) :
    ∃ front, text = front ++ rest ∧ Operands.Matches slots Lead vs front ∧
      ¬ Operands.Extends slots vs rest := by
  induction slots generalizing Lead lead text with
  | nil =>
    cases h
    exact ⟨[], rfl, rfl, id⟩
  | cons s ss ih =>
    simp only [Operands.read?, Option.bind_eq_bind, Option.bind_eq_some_iff, Prod.exists,
      Option.pure_def, Option.some.injEq, Prod.mk.injEq] at h
    obtain ⟨start, hstart, v, mid, hv, us, last, hus, rfl, rfl⟩ := h
    obtain ⟨gap, rfl, hgap⟩ := hlead hstart
    obtain ⟨first, rfl, hfirst, hstop⟩ := Slot.matches_of_read? hv
    obtain ⟨more, rfl, hmore, hlast⟩ := ih afterComma?_eq_some hus
    refine ⟨gap ++ (first ++ more), by simp, ⟨gap, first, more, rfl, hgap, hfirst, hmore⟩, ?_⟩
    cases ss with
    | nil =>
      obtain rfl := hmore
      exact hstop
    | cons t ts => exact hlast

variable {op : Opcode} {operands : Operands op.slots}

/-- The rest of a text behind an instruction, from what directly follows its last operand. -/
def leftBehind (op : Opcode) (behind : List Char) : List Char :=
  if op.takesSpace then dropSpace behind else behind

theorem readInstruction?_iff :
    readInstruction? op text = some (operands, rest) ↔
      ∃ front behind, text = front ++ behind ∧ (Statement.instruction op operands).Matches front ∧
        ¬ Operands.Extends op.slots operands behind ∧ rest = leftBehind op behind := by
  constructor
  · intro h
    simp only [readInstruction?, Option.bind_eq_bind, Option.bind_eq_some_iff, Prod.exists,
      Option.pure_def, Option.some.injEq, Prod.mk.injEq] at h
    obtain ⟨tail, hword, us, behind, hus, rfl, rfl⟩ := h
    obtain ⟨front, rfl, hfront, hstop⟩ := Operands.matches_of_read? afterSpace?_eq_some hus
    refine ⟨op.word ++ front, behind, ?_, ⟨front, hfront, rfl⟩, hstop, rfl⟩
    rw [after?_eq_some_iff.1 hword, List.append_assoc]
  · rintro ⟨_, behind, rfl, ⟨front, hfront, rfl⟩, hstop, rfl⟩
    rw [List.append_assoc]
    exact readInstruction?_append hfront hstop

theorem read?_instruction_iff :
    Statement.read? text = some (.instruction op operands, rest) ↔
      Form.label.pattern.Misses text ∧ readInstruction? op text = some (operands, rest) := by
  constructor
  · intro h
    rcases Form.read?_cases text with ⟨form, p, hfirst, hform, he⟩ | ⟨_, he⟩
    · rw [h] at he
      cases he
      cases Form.form?_of_read? hform
      obtain ⟨m, hm, he⟩ := Option.map_eq_some_iff.1 hform
      cases he
      exact ⟨hfirst.resolve_left (by simp), hm⟩
    · rw [h] at he
      obtain ⟨_, _, heq⟩ := Option.map_eq_some_iff.1 he.symm
      cases heq
  · rintro ⟨hlabel, hread⟩
    have hform : (Form.instruction op).read? text = some (.instruction op operands, rest) := by
      simp [Form.read?, Statement.instruction?, hread]
    exact Form.read?_of_form (.inr hlabel) hform

theorem Slot.Matches.isSpace_of_mem {s : Slot} {v : s.Value} (h : s.Matches v text) :
    ∀ c ∈ text, isSpace c = false := by
  have hdigits : ∀ {digits}, Digits digits → ∀ c ∈ digits, isSpace c = false :=
    fun hd c hc => isSpace_of_isDigit (hd.2 c hc)
  have hpair : ∀ p, ∀ c ∈ pairText p, isSpace c = false := by
    intro p c hc
    have hall : (pairText p).all isWord = true := by cases p <;> decide
    exact isSpace_of_isWord (List.all_eq_true.1 hall c hc)
  have hR : isSpace 'R' = false := by decide
  have hopen : isSpace '(' = false := by decide
  have hclose : isSpace ')' = false := by decide
  cases s with
  | register =>
    obtain ⟨hd, rfl⟩ := h
    exact List.forall_mem_cons.2 ⟨hR, hdigits hd⟩
  | indirect =>
    obtain ⟨hd, rfl⟩ := h
    simpa [hR, hopen, hclose, or_imp, forall_and] using hdigits hd
  | pair =>
    obtain rfl := h
    exact hpair v
  | indirectPair =>
    obtain rfl := h
    simpa [hopen, hclose, or_imp, forall_and] using hpair v
  | literal =>
    cases v with
    | hex digits =>
      obtain ⟨_, hhex, rfl⟩ := h
      refine List.forall_mem_cons.2 ⟨by decide, List.forall_mem_cons.2 ⟨by decide, ?_⟩⟩
      exact fun c hc => isSpace_of_isWord (isWord_of_isHexDigit (hhex c hc))
    | decimal digits =>
      obtain ⟨hd, rfl⟩ := h
      exact hdigits hd
  | name =>
    obtain ⟨⟨c, tail, he, hc, hword⟩, rfl⟩ := h
    rw [he]
    exact List.forall_mem_cons.2
      ⟨isSpace_of_isWord (isWord_of_isNameStart hc), fun d hd => isSpace_of_isWord (hword d hd)⟩

theorem Operands.Matches.isSpace_getLast? {slots : List Slot} {Lead : List Char → Prop}
    {vs : Operands slots} {start : List Char} (h : Operands.Matches slots Lead vs text)
    (hstart : ∀ c ∈ start.getLast?, isSpace c = false) :
    ∀ c ∈ (start ++ text).getLast?, isSpace c = false := by
  induction slots generalizing Lead start text with
  | nil =>
    obtain rfl := h
    simpa using hstart
  | cons s ss ih =>
    obtain ⟨gap, first, last, rfl, _, hfirst, hlast⟩ := h
    rw [← List.append_assoc, ← List.append_assoc]
    refine ih hlast ?_
    intro c hc
    obtain ⟨d, tail, hne, _⟩ := hfirst.isSpace_head
    rw [List.getLast?_append_of_ne_nil _ (by simp [hne])] at hc
    exact hfirst.isSpace_of_mem c (List.mem_of_getLast? hc)

theorem isSpace_getLast?_of_matches {front : List Char}
    (h : (Statement.instruction op operands).Matches front) :
    ∀ c ∈ front.getLast?, isSpace c = false := by
  obtain ⟨text, htext, rfl⟩ := h
  refine htext.isSpace_getLast? fun c hc => ?_
  exact isSpace_of_isWord (op.isWord_of_mem_word c (List.mem_of_getLast? hc))

theorem eq_of_append_dropSpace {front front' behind behind' : List Char}
    (hfront : ∀ c ∈ front.getLast?, isSpace c = false)
    (hfront' : ∀ c ∈ front'.getLast?, isSpace c = false)
    (he : front ++ behind = front' ++ behind') (hleft : dropSpace behind = dropSpace behind') :
    front = front' := by
  have hstrip : ∀ {front : List Char} (behind : List Char), (∀ c ∈ front.getLast?, isSpace c = false) →
      (front ++ behind.takeWhile isSpace).reverse.dropWhile isSpace = front.reverse := by
    intro front behind hlast
    rw [List.reverse_append]
    refine dropWhile_run ?_ (by simpa using hlast)
    intro c hc
    exact List.all_eq_true.1 List.all_takeWhile c (List.mem_reverse.1 hc)
  have hspaces : front ++ behind.takeWhile isSpace = front' ++ behind'.takeWhile isSpace := by
    rw [← @List.takeWhile_append_dropWhile _ isSpace behind,
      ← @List.takeWhile_append_dropWhile _ isSpace behind', ← List.append_assoc, ← List.append_assoc,
      show behind.dropWhile isSpace = behind'.dropWhile isSpace from hleft] at he
    exact List.append_cancel_right he
  have hreverse := hstrip behind hfront
  rw [hspaces, hstrip behind' hfront'] at hreverse
  exact (List.reverse_inj.1 hreverse).symm

/-- An instruction is recognised in a text. Behind the blanks, `front` reaches to the last character of its
mnemonic or of its last operand, and `behind` follows directly. -/
def Recognised (text front behind : List Char) (op : Opcode) (operands : Operands op.slots) : Prop :=
  skipBlanks text = front ++ behind ∧ (Statement.instruction op operands).Matches front ∧
    Statement.read? (skipBlanks text) = some (.instruction op operands, leftBehind op behind)

variable {front behind : List Char}

/-- An instruction is recognised with an end exactly if no label stands there and what follows that end
does not make its last operand longer. -/
theorem recognised_iff :
    Recognised text front behind op operands ↔
      skipBlanks text = front ++ behind ∧ (Statement.instruction op operands).Matches front ∧
        Form.label.pattern.Misses (skipBlanks text) ∧ ¬ Operands.Extends op.slots operands behind := by
  constructor
  · rintro ⟨htext, hfront, hread⟩
    obtain ⟨hlabel, hread⟩ := read?_instruction_iff.1 hread
    obtain ⟨front', behind', htext', hfront', hstop, hleft⟩ := readInstruction?_iff.1 hread
    refine ⟨htext, hfront, hlabel, ?_⟩
    have he : front ++ behind = front' ++ behind' := htext.symm.trans htext'
    have hbehind : behind = behind' := by
      unfold leftBehind at hleft
      split at hleft
      · have hends := eq_of_append_dropSpace (isSpace_getLast?_of_matches hfront)
          (isSpace_getLast?_of_matches hfront') he hleft
        rw [hends] at he
        exact List.append_cancel_left he
      · exact hleft
    rwa [hbehind]
  · rintro ⟨htext, hfront, hlabel, hstop⟩
    refine ⟨htext, hfront, read?_instruction_iff.2 ⟨hlabel, ?_⟩⟩
    exact readInstruction?_iff.2 ⟨front, behind, htext, hfront, hstop, rfl⟩

theorem exists_recognised (h : Statement.read? (skipBlanks text) = some (.instruction op operands, rest)) :
    ∃ front behind, rest = leftBehind op behind ∧ Recognised text front behind op operands := by
  obtain ⟨_, hread⟩ := read?_instruction_iff.1 h
  obtain ⟨front, behind, htext, hfront, _, rfl⟩ := readInstruction?_iff.1 hread
  exact ⟨front, behind, rfl, htext, hfront, h⟩

end Source

namespace State

open Source

/-- Where instructions end. Each instruction that a step finds has an end, and an instruction has this end
exactly if its last operand does not go on behind it; only behind the name of a branch is this the end of a
word. -/
theorem step_instruction_ends (text : List Char) :
    (∀ op operands rest,
      Statement.read? (skipBlanks text) = some (.instruction op operands, rest) →
        (∀ s : State, (s.withText text).step = (s.execute (.instruction op operands)).retext (some rest)) ∧
        ∃ front behind, rest = leftBehind op behind ∧ Recognised text front behind op operands) ∧
    (∀ front behind op operands, Recognised text front behind op operands ↔
      skipBlanks text = front ++ behind ∧ (Statement.instruction op operands).Matches front ∧
        Form.label.pattern.Misses (skipBlanks text) ∧ ¬ Operands.Extends op.slots operands behind) ∧
    ∀ front behind b label, Recognised text front behind (.branch b) (label, ()) →
      ∀ c ∈ behind.head?, isWord c = false := by
  refine ⟨?_, fun _ _ _ _ => recognised_iff, ?_⟩
  · intro op operands rest h
    exact ⟨fun s => step_of_read? h, exists_recognised h⟩
  · intro front behind b label h
    exact forall_head?_of_not_exists (recognised_iff.1 h).2.2.2

theorem step_instruction_ends_jump :
    skipBlanks ['J', 'M', 'P', ' ', 'a', ',', 'b'] = ['J', 'M', 'P', ' ', 'a'] ++ [',', 'b'] ∧
      Statement.read? (skipBlanks ['J', 'M', 'P', ' ', 'a', ',', 'b']) =
        some (.instruction (.branch .jmp) ("a", ()), [',', 'b']) ∧
      Recognised ['J', 'M', 'P', ' ', 'a', ',', 'b'] ['J', 'M', 'P', ' ', 'a'] [',', 'b']
        (.branch .jmp) ("a", ()) ∧ isWord ',' = false := by
  have hskip : skipBlanks ['J', 'M', 'P', ' ', 'a', ',', 'b'] = ['J', 'M', 'P', ' ', 'a'] ++ [',', 'b'] :=
    skipBlanks_of_none rfl
  have hread : Statement.read? (skipBlanks ['J', 'M', 'P', ' ', 'a', ',', 'b']) =
      some (.instruction (.branch .jmp) ("a", ()), [',', 'b']) := by
    rw [hskip]
    rfl
  obtain ⟨hfound, _, hword⟩ := step_instruction_ends ['J', 'M', 'P', ' ', 'a', ',', 'b']
  obtain ⟨_, front, behind, rfl, h⟩ := hfound _ _ _ hread
  have hfront : front = ['J', 'M', 'P', ' ', 'a'] := List.append_cancel_right (h.1.symm.trans hskip)
  rw [hfront] at h
  exact ⟨hskip, hread, h, hword _ _ _ _ h ',' rfl⟩

/-- A mnemonic need not be a whole word: a halt is found in front of a letter. -/
theorem instruction_not_always_word :
    ¬ ∀ text front behind op operands, Recognised text front behind op operands →
      ∀ c ∈ behind.head?, isWord c = false := by
  intro h
  have hskip : skipBlanks ['H', 'L', 'T', 'X'] = ['H', 'L', 'T'] ++ ['X'] := skipBlanks_of_none rfl
  have hread : Statement.read? (skipBlanks ['H', 'L', 'T', 'X']) = some (.instruction .hlt (), ['X']) := by
    rw [hskip]
    rfl
  have hfound : Recognised ['H', 'L', 'T', 'X'] ['H', 'L', 'T'] ['X'] .hlt () :=
    ⟨hskip, ⟨[], rfl, rfl⟩, hread⟩
  exact absurd (h _ _ _ _ _ hfound 'X' rfl) (by decide)

end State

end ByteAsm
