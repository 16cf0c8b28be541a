import ByteAsm.Proofs.CharacterClass
import ByteAsm.Source.Statement

/-! How names, numbers, operands and instructions are written, with any white space that may stand
between their parts. What has this form is read back, if the text behind it does not make its last number
or name longer. -/
namespace ByteAsm

open Text

namespace Source

def isBreak (c : Char) : Bool := isSpace c || c ∈ ['#', '/', ',', ')']

def Breaks (text : List Char) : Prop := ∀ c ∈ text.head?, isBreak c = true

def IsName (text : List Char) : Prop :=
  ∃ c rest, text = c :: rest ∧ isNameStart c = true ∧ ∀ d ∈ rest, isWord d = true

def Digits (digits : List Char) : Prop := digits ≠ [] ∧ ∀ c ∈ digits, isDigit c = true

def SpaceRun (gap : List Char) : Prop := gap ≠ [] ∧ ∀ c ∈ gap, isSpace c = true

def CommaGap (gap : List Char) : Prop :=
  ∃ left right, gap = left ++ ',' :: right ∧ (∀ c ∈ left, isSpace c = true) ∧
    ∀ c ∈ right, isSpace c = true

def pairText : RegisterPair → List Char
  | .r01 => ['R', '0', '1']
  | .r23 => ['R', '2', '3']

/-- A literal has the form of `0x` with hexadecimal digits, or of decimal digits. -/
def LiteralMatches : Literal → List Char → Prop
  | .hex digits, text =>
    digits ≠ [] ∧ (∀ c ∈ digits, isHexDigit c = true) ∧ text = '0' :: 'x' :: digits
  | .decimal digits, text => Digits digits ∧ text = digits

/-- The form of an operand, whatever the numbers in it. -/
def Slot.Matches : (s : Slot) → s.Value → List Char → Prop
  | .register, digits, text => Digits digits ∧ text = 'R' :: digits
  | .indirect, digits, text => Digits digits ∧ text = '(' :: 'R' :: (digits ++ [')'])
  | .pair, p, text => text = pairText p
  | .indirectPair, p, text => text = '(' :: (pairText p ++ [')'])
  | .literal, w, text => LiteralMatches w text
  | .name, label, text => IsName label.toList ∧ text = label.toList

/-- The form of operands, with gaps in front of them. `Lead` says which gaps may stand before the
first. -/
def Operands.Matches : (slots : List Slot) → (Lead : List Char → Prop) → Operands slots →
    List Char → Prop
  | [], _, (), text => text = []
  | s :: ss, Lead, (v, vs), text =>
    ∃ gap first rest, text = gap ++ (first ++ rest) ∧ Lead gap ∧ s.Matches v first ∧
      Operands.Matches ss CommaGap vs rest

/-- The number of an operand can be taken: it has not too many digits, and in decimal digits there is no
zero in front of a number that is not zero. -/
def Slot.Valid : (s : Slot) → s.Value → Prop
  | .register, digits | .indirect, digits => digits.length ≤ Numeral.maxDigits
  | .literal, .decimal digits =>
    digits.length ≤ Numeral.maxDigits ∧
      (Numeral.startsWithZero digits = true → Numeral.decimalValue digits = 0)
  | .literal, .hex _ | .pair, _ | .indirectPair, _ | .name, _ => True

def Operands.Valid : (slots : List Slot) → Operands slots → Prop
  | [], () => True
  | s :: ss, (v, vs) => s.Valid v ∧ Operands.Valid ss vs

/-- A number goes on with a digit of its base, or a zero with an `x` and a hexadecimal digit. -/
def LiteralExtends : Literal → List Char → Prop
  | .hex _, rest => ∃ c ∈ rest.head?, isHexDigit c = true
  | .decimal digits, rest =>
    (∃ c ∈ rest.head?, isDigit c = true) ∨
      digits = ['0'] ∧ ∃ c tail, rest = 'x' :: c :: tail ∧ isHexDigit c = true

/-- What follows an operand makes it longer. -/
def Slot.Extends : (s : Slot) → s.Value → List Char → Prop
  | .register, _, rest => ∃ c ∈ rest.head?, isDigit c = true
  | .literal, w, rest => LiteralExtends w rest
  | .name, _, rest => ∃ c ∈ rest.head?, isWord c = true
  | .pair, _, _ | .indirect, _, _ | .indirectPair, _, _ => False

/-- What follows operands makes the last of them longer. -/
def Operands.Extends : (slots : List Slot) → Operands slots → List Char → Prop
  | [], (), _ => False
  | [s], (v, ()), rest => s.Extends v rest
  | _ :: s :: ss, (_, vs), rest => Operands.Extends (s :: ss) vs rest

section

variable {p : Char → Bool} {text rest gap : List Char} {c : Char}

theorem isWord_of_isBreak (h : isBreak c = true) : isWord c = false := by
  simp only [isBreak, Bool.or_eq_true, decide_eq_true_eq, List.mem_cons, List.not_mem_nil,
    or_false] at h
  rcases h with h | rfl | rfl | rfl | rfl
  · exact isWord_of_isSpace h
  all_goals decide

theorem Breaks.isWord (h : Breaks text) : ∀ c ∈ text.head?, isWord c = false :=
  fun c hc => isWord_of_isBreak (h c hc)

theorem Breaks.isDigit (h : Breaks text) : ∀ c ∈ text.head?, isDigit c = false := by
  intro c hc
  have hb := h c hc
  simp only [isBreak, Bool.or_eq_true, decide_eq_true_eq, List.mem_cons, List.not_mem_nil,
    or_false] at hb
  rcases hb with hs | rfl | rfl | rfl | rfl
  · apply Bool.eq_false_iff.2
    intro hd
    rw [isSpace_of_isDigit hd] at hs
    cases hs
  all_goals decide

theorem Breaks.isHexDigit (h : Breaks text) : ∀ c ∈ text.head?, isHexDigit c = false := by
  intro c hc
  apply Bool.eq_false_iff.2
  intro hd
  have hword := isWord_of_isHexDigit hd
  rw [h.isWord c hc] at hword
  cases hword

theorem isSpace_of_isWord (h : isWord c = true) : isSpace c = false := by
  apply Bool.eq_false_iff.2
  intro hs
  rw [isWord_of_isSpace hs] at h
  cases h

theorem takeWhile_run {run : List Char} (hrun : ∀ c ∈ run, p c = true)
    (hrest : ∀ c ∈ rest.head?, p c = false) : (run ++ rest).takeWhile p = run := by
  rw [List.takeWhile_append_of_pos hrun]
  cases rest with
  | nil => simp
  | cons c rest => simp [hrest c rfl]

theorem dropWhile_run {run : List Char} (hrun : ∀ c ∈ run, p c = true)
    (hrest : ∀ c ∈ rest.head?, p c = false) : (run ++ rest).dropWhile p = rest := by
  rw [List.dropWhile_append_of_pos hrun]
  cases rest with
  | nil => rfl
  | cons c rest => simp [hrest c rfl]

theorem readRun?_append {run : List Char} (hne : run ≠ []) (hrun : ∀ c ∈ run, p c = true)
    (hrest : ∀ c ∈ rest.head?, p c = false) : readRun? p (run ++ rest) = some (run, rest) :=
  readRun?_eq_some_iff.2 ⟨hne, takeWhile_run hrun hrest, dropWhile_run hrun hrest⟩

theorem afterSpace?_append (hgap : SpaceRun gap) (hrest : ∀ c ∈ rest.head?, isSpace c = false) :
    afterSpace? (gap ++ rest) = some rest := by
  obtain ⟨hne, hspace⟩ := hgap
  cases gap with
  | nil => exact absurd rfl hne
  | cons c gap =>
    rw [List.cons_append, afterSpace?, if_pos (hspace c List.mem_cons_self), dropSpace,
      dropWhile_run (fun d hd => hspace d (List.mem_cons_of_mem c hd)) hrest]

theorem afterComma?_append (hgap : CommaGap gap) (hrest : ∀ c ∈ rest.head?, isSpace c = false) :
    afterComma? (gap ++ rest) = some rest := by
  obtain ⟨left, right, rfl, hleft, hright⟩ := hgap
  have hcomma : ∀ c ∈ (',' :: (right ++ rest)).head?, isSpace c = false := by
    intro c hc
    cases hc
    decide
  rw [List.append_assoc, List.cons_append, afterComma?, dropSpace, dropWhile_run hleft hcomma]
  simp only [after?, if_true, Option.map_some, dropSpace]
  rw [dropWhile_run hright hrest]

theorem readName?_append {name : List Char} (hname : IsName name)
    (hrest : ∀ c ∈ rest.head?, isWord c = false) :
    readName? (name ++ rest) = some (String.ofList name, rest) := by
  obtain ⟨c, cs, rfl, hc, hword⟩ := hname
  rw [List.cons_append, readName?, if_pos hc, takeWhile_run hword hrest, dropWhile_run hword hrest]

theorem readRegister?_append {digits : List Char} (hd : Digits digits)
    (hrest : ∀ c ∈ rest.head?, isDigit c = false) :
    readRegister? ('R' :: (digits ++ rest)) = some (digits, rest) := by
  rw [readRegister?, show after? ['R'] ('R' :: (digits ++ rest)) = _ from after?_append ['R'] _]
  exact readRun?_append hd.1 hd.2 hrest

theorem readPair?_append (p : RegisterPair) (rest : List Char) :
    readPair? (pairText p ++ rest) = some (p, rest) := by
  cases p with
  | r01 => simp [readPair?, pairText, after?]
  | r23 => simp [readPair?, pairText, after?]

theorem readParens?_append {α : Type} {read : List Char → Option (α × List Char)} {a : α}
    (h : read (text ++ ')' :: rest) = some (a, ')' :: rest)) :
    readParens? read ('(' :: (text ++ ')' :: rest)) = some (a, rest) := by
  simp [readParens?, after?, h]

theorem forall_head?_of_not_exists (h : ¬ ∃ c ∈ rest.head?, p c = true) :
    ∀ c ∈ rest.head?, p c = false := by
  intro c hc
  exact Bool.eq_false_iff.2 fun hp => h ⟨c, hc, hp⟩

theorem readLiteral?_append {w : Literal} (hw : LiteralMatches w text)
    (hrest : ¬ LiteralExtends w rest) : readLiteral? (text ++ rest) = some (w, rest) := by
  cases w with
  | hex digits =>
    obtain ⟨hne, hhex, rfl⟩ := hw
    have hstart : after? ['0', 'x'] ('0' :: 'x' :: digits ++ rest) = some (digits ++ rest) :=
      after?_append ['0', 'x'] _
    rw [readLiteral?, hstart, Option.bind_some,
      readRun?_append hne hhex (forall_head?_of_not_exists hrest)]
  | decimal digits =>
    obtain ⟨⟨hne, hdigit⟩, rfl⟩ := hw
    obtain ⟨hstop, hzero⟩ := not_or.1 hrest
    -- an `x` is no digit, so it follows the whole number, and no hexadecimal digit follows it
    have hhex : (after? ['0', 'x'] (text ++ rest)).bind (readRun? isHexDigit) = none := by
      cases hs : after? ['0', 'x'] (text ++ rest) with
      | none => rfl
      | some tail =>
        have he := after?_eq_some_iff.1 hs
        match text, hne, hdigit with
        | [c], _, _ =>
          simp only [List.cons_append, List.nil_append, List.cons.injEq] at he
          obtain ⟨rfl, rfl⟩ := he
          cases tail with
          | nil => rfl
          | cons d tail =>
            have hd : isHexDigit d = false :=
              Bool.eq_false_iff.2 fun hd => hzero ⟨rfl, d, tail, rfl, hd⟩
            simp [readRun?, hd]
        | c :: d :: text, _, hdigit =>
          simp only [List.cons_append, List.nil_append, List.cons.injEq] at he
          have hx := hdigit d (by simp)
          rw [he.2.1] at hx
          exact absurd hx (by decide)
    rw [readLiteral?, hhex, readRun?_append hne hdigit (forall_head?_of_not_exists hstop)]
    rfl

theorem Slot.Matches.read?_append {s : Slot} {v : s.Value} (h : s.Matches v text)
    (hrest : ¬ s.Extends v rest) : s.read? (text ++ rest) = some (v, rest) := by
  have hparen : ∀ c ∈ (')' :: rest).head?, isDigit c = false := by
    intro c hc
    cases hc
    decide
  cases s with
  | register =>
    obtain ⟨hd, rfl⟩ := h
    exact readRegister?_append hd (forall_head?_of_not_exists hrest)
  | indirect =>
    obtain ⟨hd, rfl⟩ := h
    have hread : readParens? readRegister? ('(' :: ('R' :: v ++ ')' :: rest)) = some (v, rest) :=
      readParens?_append (readRegister?_append hd hparen)
    simpa [Slot.read?] using hread
  | pair =>
    obtain rfl := h
    exact readPair?_append v rest
  | indirectPair =>
    obtain rfl := h
    have hread := readParens?_append (readPair?_append v (')' :: rest))
    simpa [Slot.read?] using hread
  | literal => exact readLiteral?_append h hrest
  | name =>
    obtain ⟨hn, rfl⟩ := h
    have hread := readName?_append hn (forall_head?_of_not_exists hrest)
    rwa [String.ofList_toList] at hread

theorem Breaks.not_extends (h : Breaks rest) (s : Slot) (v : s.Value) : ¬ s.Extends v rest := by
  have hkind : ∀ {p : Char → Bool}, (∀ c ∈ rest.head?, p c = false) →
      ¬ ∃ c ∈ rest.head?, p c = true := by
    rintro p hp ⟨c, hc, htrue⟩
    rw [hp c hc] at htrue
    cases htrue
  cases s with
  | register => exact hkind h.isDigit
  | name => exact hkind h.isWord
  | pair | indirect | indirectPair => exact id
  | literal =>
    cases v with
    | hex digits => exact hkind h.isHexDigit
    | decimal digits =>
      rintro (hdigit | ⟨_, c, tail, rfl, _⟩)
      · exact hkind h.isDigit hdigit
      · exact absurd (h 'x' rfl) (by decide)

theorem Slot.Matches.isSpace_head {s : Slot} {v : s.Value} (h : s.Matches v text) :
    ∃ c tail, text = c :: tail ∧ isSpace c = false := by
  cases s with
  | register =>
    obtain ⟨_, rfl⟩ := h
    exact ⟨_, _, rfl, by decide⟩
  | indirect =>
    obtain ⟨_, rfl⟩ := h
    exact ⟨_, _, rfl, by decide⟩
  | pair =>
    obtain rfl := h
    cases v <;> exact ⟨_, _, rfl, by decide⟩
  | indirectPair =>
    obtain rfl := h
    exact ⟨_, _, rfl, by decide⟩
  | literal =>
    cases v with
    | hex digits =>
      obtain ⟨_, _, rfl⟩ := h
      exact ⟨_, _, rfl, by decide⟩
    | decimal digits =>
      obtain ⟨⟨hne, hdigit⟩, rfl⟩ := h
      obtain ⟨c, tail, rfl⟩ := List.exists_cons_of_ne_nil hne
      exact ⟨c, tail, rfl, isSpace_of_isDigit (hdigit c List.mem_cons_self)⟩
  | name =>
    obtain ⟨⟨c, tail, he, hc, _⟩, rfl⟩ := h
    exact ⟨c, tail, he, isSpace_of_isWord (isWord_of_isNameStart hc)⟩

theorem SpaceRun.breaks (h : SpaceRun gap) (text : List Char) : Breaks (gap ++ text) := by
  obtain ⟨hne, hspace⟩ := h
  obtain ⟨c, tail, rfl⟩ := List.exists_cons_of_ne_nil hne
  intro d hd
  cases hd
  simp [isBreak, hspace c List.mem_cons_self]

theorem CommaGap.breaks (h : CommaGap gap) (text : List Char) : Breaks (gap ++ text) := by
  obtain ⟨left, right, rfl, hleft, _⟩ := h
  cases left with
  | nil =>
    intro d hd
    cases hd
    decide
  | cons c left =>
    intro d hd
    cases hd
    simp [isBreak, hleft c List.mem_cons_self]

theorem Operands.Matches.breaks {slots : List Slot} {Lead : List Char → Prop}
    {vs : Operands slots} (h : Operands.Matches slots Lead vs text)
    (hlead : ∀ {gap}, Lead gap → ∀ text, Breaks (gap ++ text)) (hrest : Breaks rest) :
    Breaks (text ++ rest) := by
  cases slots with
  | nil =>
    obtain rfl := h
    exact hrest
  | cons s ss =>
    obtain ⟨gap, first, last, rfl, hgap, _, _⟩ := h
    rw [List.append_assoc]
    exact hlead hgap _

theorem Breaks.not_extends_operands (h : Breaks rest) {slots : List Slot} (vs : Operands slots) :
    ¬ Operands.Extends slots vs rest := by
  induction slots with
  | nil => exact id
  | cons s ss ih =>
    cases ss with
    | nil => exact h.not_extends s vs.1
    | cons t ts => exact ih vs.2

/-- What is written as operands is read as these operands, if what follows does not make the last of them
longer. -/
theorem Operands.Matches.read?_append {slots : List Slot} {Lead : List Char → Prop}
    {lead : List Char → Option (List Char)} {vs : Operands slots}
    (h : Operands.Matches slots Lead vs text)
    (hlead : ∀ {gap rest}, Lead gap → (∀ c ∈ rest.head?, isSpace c = false) →
      lead (gap ++ rest) = some rest)
    (hrest : ¬ Operands.Extends slots vs rest) :
    Operands.read? slots lead (text ++ rest) = some (vs, rest) := by
  induction slots generalizing Lead lead text with
  | nil =>
    obtain rfl := h
    rfl
  | cons s ss ih =>
    obtain ⟨v, vs⟩ := vs
    obtain ⟨gap, first, last, rfl, hgap, hfirst, hlast⟩ := h
    obtain ⟨c, tail, hhead, hc⟩ := hfirst.isSpace_head
    have hgo : lead (gap ++ (first ++ (last ++ rest))) = some (first ++ (last ++ rest)) := by
      apply hlead hgap
      intro d hd
      rw [hhead] at hd
      cases hd
      exact hc
    have hstop : ¬ s.Extends v (last ++ rest) ∧ ¬ Operands.Extends ss vs rest := by
      cases ss with
      | nil =>
        obtain rfl := hlast
        exact ⟨hrest, id⟩
      | cons t ts =>
        obtain ⟨comma, next, more, rfl, hcomma, _, _⟩ := hlast
        rw [List.append_assoc]
        exact ⟨(hcomma.breaks _).not_extends s v, hrest⟩
    have hread := hfirst.read?_append hstop.1
    have htail := ih hlast afterComma?_append hstop.2
    simp [Operands.read?, List.append_assoc, hgo, hread, htail]

end

end Source

namespace Opcode

theorem isWord_of_mem_word (op : Opcode) : ∀ c ∈ op.word, isWord c = true := by
  have h : ∀ op ∈ trialOrder, op.word.all isWord = true := by decide
  exact List.all_eq_true.1 (h op op.mem_trialOrder)

theorem isName_word (op : Opcode) : Source.IsName op.word := by
  have hstart : ∀ op ∈ trialOrder, op.word.head?.all isNameStart = true := by decide
  obtain ⟨c, rest, hw⟩ := List.exists_cons_of_ne_nil op.word_ne_nil
  have hc := hstart op op.mem_trialOrder
  have hrest := op.isWord_of_mem_word
  rw [hw] at hc hrest
  exact ⟨c, rest, hw, hc, fun d hd => hrest d (List.mem_cons_of_mem c hd)⟩

theorem word_injective {op other : Opcode} (h : op.word = other.word) : op = other := by
  have hall : ∀ op ∈ trialOrder, ∀ other ∈ trialOrder, op.word = other.word → op = other := by
    decide
  exact hall op op.mem_trialOrder other other.mem_trialOrder h

theorem eq_of_word_beginning {op other : Opcode} (hs : other.slots = [])
    (h : other.word.isPrefixOf op.word = true) : other = op := by
  have hall : ∀ op ∈ trialOrder, ∀ other ∈ trialOrder, other.slots = [] →
      other.word.isPrefixOf op.word = true → other = op := by
    decide
  exact hall op op.mem_trialOrder other other.mem_trialOrder hs h

end Opcode

namespace Source

variable {op other : Opcode} {text rest : List Char}

/-- If those that answer agree with one of them, it does not matter which is asked first. -/
theorem findSome?_eq_some_of_mem {α β : Type} {as : List α} {f : α → Option β} {a : α} {b : β}
    (ha : a ∈ as) (hb : f a = some b) (hagree : ∀ d ∈ as, ∀ c, f d = some c → c = b) :
    as.findSome? f = some b := by
  cases hfind : as.findSome? f with
  | none =>
    have hnone := List.findSome?_eq_none_iff.1 hfind a ha
    rw [hb] at hnone
    cases hnone
  | some c =>
    obtain ⟨d, hd, hc⟩ := List.exists_of_findSome?_eq_some hfind
    rw [hagree d hd c hc]

theorem readInstruction?_append {operands : Operands op.slots}
    (h : Operands.Matches op.slots SpaceRun operands text)
    (hrest : ¬ Operands.Extends op.slots operands rest) :
    readInstruction? op (op.word ++ (text ++ rest)) =
      some (operands, if op.takesSpace then dropSpace rest else rest) := by
  have hread := h.read?_append afterSpace?_append hrest
  simp [readInstruction?, after?_append, hread]

theorem readInstruction?_of_ne (hne : other ≠ op) (hrest : Breaks rest) :
    readInstruction? other (op.word ++ rest) = none := by
  cases ha : after? other.word (op.word ++ rest) with
  | none => simp [readInstruction?, ha]
  | some tail =>
    have hnone : Operands.read? other.slots afterSpace? tail = none := by
      rcases List.append_eq_append_iff.1 (after?_eq_some_iff.1 ha) with
        ⟨more, hword, hmore⟩ | ⟨more, hword, hmore⟩
      · cases more with
        | nil => exact absurd (Opcode.word_injective (by simpa using hword)) hne
        | cons c more =>
          have hc := other.isWord_of_mem_word c (by simp [hword])
          have hb := isWord_of_isBreak (hrest c (by simp [hmore]))
          rw [hc] at hb
          cases hb
      · cases more with
        | nil => exact absurd (Opcode.word_injective (by simpa using hword.symm)) hne
        | cons c more =>
          have hc := isSpace_of_isWord (op.isWord_of_mem_word c (by simp [hword]))
          cases hs : other.slots with
          | nil => exact absurd (Opcode.eq_of_word_beginning hs (by simp [hword])) hne
          | cons s ss => simp [hmore, Operands.read?, afterSpace?, hc]
    simp [readInstruction?, ha, hnone]

namespace Statement

theorem label?_word (op : Opcode) (hrest : Breaks rest) : label? (op.word ++ rest) = none := by
  have hcolon : after? [':'] rest = none := by
    cases rest with
    | nil => rfl
    | cons c rest =>
      have hc : ':' ≠ c := by
        rintro rfl
        exact absurd (hrest ':' rfl) (by decide)
      simp [after?, hc]
  simp [label?, readName?_append op.isName_word hrest.isWord, hcolon]

theorem data?_of_isWord {c : Char} (hc : isWord c = true) : data? (c :: rest) = none := by
  have hdot : '.' ≠ c := by
    rintro rfl
    exact absurd hc (by decide)
  simp [data?, after?, hdot]

/-- An instruction is read as itself. -/
theorem read?_instruction {operands : Operands op.slots}
    (h : Operands.Matches op.slots SpaceRun operands text) (hrest : Breaks rest) :
    read? (op.word ++ (text ++ rest)) =
      some (.instruction op operands, if op.takesSpace then dropSpace rest else rest) := by
  have hbreaks : Breaks (text ++ rest) := h.breaks SpaceRun.breaks hrest
  have hself : instruction? op (op.word ++ (text ++ rest)) =
      some (.instruction op operands, if op.takesSpace then dropSpace rest else rest) := by
    rw [instruction?, readInstruction?_append h (hrest.not_extends_operands operands)]
    rfl
  have hforms : forms.findSome? (· (op.word ++ (text ++ rest))) =
      some (.instruction op operands, if op.takesSpace then dropSpace rest else rest) := by
    apply findSome?_eq_some_of_mem
      (List.mem_cons_of_mem _ (List.mem_map_of_mem op.mem_trialOrder)) hself
    intro form hform found hread
    rcases List.mem_cons.1 hform with rfl | hform
    · obtain ⟨c, word, hw⟩ := List.exists_cons_of_ne_nil op.word_ne_nil
      have hc := op.isWord_of_mem_word c (by simp [hw])
      rw [hw, List.cons_append, data?_of_isWord hc] at hread
      cases hread
    · obtain ⟨other, _, rfl⟩ := List.mem_map.1 hform
      by_cases hne : other = op
      · rw [hne, hself] at hread
        exact (Option.some.inj hread).symm
      · rw [instruction?, readInstruction?_of_ne hne hbreaks] at hread
        cases hread
  simp [read?, label?_word op hbreaks, hforms]

theorem read?_label {name : String} (hname : IsName name.toList) (rest : List Char) :
    read? (name.toList ++ ':' :: rest) = some (.label name, rest) := by
  have hread := @readName?_append (':' :: rest) _ hname (by
    intro c hc
    cases hc
    decide)
  simp [read?, label?, hread, after?]

end Statement

end Source

end ByteAsm
