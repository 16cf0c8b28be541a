import ByteAsm.Proofs.Escaping
import ByteAsm.Proofs.Pattern

/-! The patterns of operands and statements, and that each is what its reader reads. Operands hold neither
white space nor commas, which is why each can be read as far as it goes. -/
namespace ByteAsm

open Text

namespace Source

/-- White space and commas, which stand between operands. -/
def isGap (c : Char) : Bool := isSpace c || c = ','

namespace Pattern

def register : Pattern := seq (text ['R']) (group (run isDigit))

def pair : Pattern := seq (text ['R']) (group (alt (text ['0', '1']) (text ['2', '3'])))

def literal : Pattern := group (alt (seq (text ['0', 'x']) (run isHexDigit)) (run isDigit))

def name : Pattern := group (seq (one isNameStart) (many (one isWord)))

def parens (r : Pattern) : Pattern := seq (text ['(']) (seq r (text [')']))

def comma : Pattern := seq (many (one isSpace)) (seq (text [',']) (many (one isSpace)))

def token : Pattern := run (!isSpace ·)

def unit : Pattern :=
  alt (one fun c => c ≠ '"' ∧ c ≠ '\\') (seq (text ['\\']) (one (· ≠ '\n')))

def string : Pattern := seq (group (many unit)) (text ['"'])

end Pattern

open Pattern

def Slot.pattern : Slot → Pattern
  | register => .register
  | indirect => parens .register
  | pair => .pair
  | indirectPair => parens .pair
  | literal => .literal
  | name => .name

def Slot.captured : (s : Slot) → s.Value → List Char
  | register, digits | indirect, digits => digits
  | pair, p | indirectPair, p => (pairText p).tail
  | literal, .hex digits => '0' :: 'x' :: digits
  | literal, .decimal digits => digits
  | name, label => label.toList

/-- Operands with commas between them, `lead` in front and `last` behind. -/
def Operands.pattern (last : Pattern) : List Slot → (lead : Pattern) → Pattern
  | [], _ => last
  | s :: ss, lead => seq lead (seq s.pattern (pattern last ss comma))

def Operands.captured : (slots : List Slot) → Operands slots → List (List Char)
  | [], () => []
  | s :: ss, (v, vs) => s.captured v :: captured ss vs

inductive Form
  | label
  | data
  | instruction (op : Opcode)
  deriving DecidableEq

namespace Form

def pattern : Form → Pattern
  | label => seq .name (text [':'])
  | data => seq (text ['.', 'a', 's', 'c', 'i', 'i']) (seq (run isSpace) (seq (text ['"']) string))
  | instruction op =>
    seq (text op.word) (Operands.pattern (if op.takesSpace then many (one isSpace) else text [])
      op.slots (run isSpace))

example : (instruction .ldir).pattern =
    seq (text ['L', 'D', 'I', 'R']) (seq (run isSpace) (seq .register (seq comma
      (seq (parens .register) (text []))))) := rfl

def read? : Form → Statement.Reader
  | label => Statement.label?
  | data => Statement.data?
  | instruction op => Statement.instruction? op

end Form

namespace Statement

def form? : Statement → Option Form
  | label _ => some .label
  | data _ => some .data
  | instruction op _ => some (.instruction op)
  | unknown _ => none

def captured : Statement → List (List Char)
  | label name => [name.toList]
  | data body => [body]
  | instruction op operands => Operands.captured op.slots operands
  | unknown _ => []

end Statement

variable {c : Char} {text rest : List Char}

theorem isGap_of_isSpace (h : isSpace c = true) : isGap c = true := by
  simp [isGap, h]

theorem isGap_of_isDigit (h : isDigit c = true) : isGap c = false := by
  have hcomma : c ≠ ',' := by
    rintro rfl
    exact absurd h (by decide)
  simp [isGap, isSpace_of_isDigit h, hcomma]

theorem isGap_of_isWord (h : isWord c = true) : isGap c = false := by
  have hcomma : c ≠ ',' := by
    rintro rfl
    exact absurd h (by decide)
  simp [isGap, isSpace_of_isWord h, hcomma]

theorem readRun?_eq_append {p : Char → Bool} {digits : List Char}
    (h : readRun? p text = some (digits, rest)) : text = digits ++ rest := by
  obtain ⟨_, rfl, rfl⟩ := readRun?_eq_some_iff.1 h
  exact List.takeWhile_append_dropWhile.symm

namespace Pattern

theorem reads_register : register.Reads readRegister? fun digits => [digits] :=
  ((reads_run isDigit).group readRun?_eq_append).after ['R']

theorem reads_pair : pair.Reads readPair? fun p => [(pairText p).tail] := by
  have hdigits : (alt (text ['0', '1']) (text ['2', '3'])).Reads
      (fun text => ((after? ['0', '1'] text).map fun rest => (RegisterPair.r01, rest)).or
        ((after? ['2', '3'] text).map fun rest => (RegisterPair.r23, rest))) fun _ => [] := by
    refine (reads_text _).alt (reads_text _) ?_ (k := fun _ => .r01) (l := fun _ => .r23) ?_
      (fun _ => rfl) fun _ => rfl
    · intro x rest o y o' hx hy hmatch
      obtain ⟨rfl, _⟩ := matches_text_iff.1 hmatch
      obtain ⟨rfl, _⟩ := matches_text_iff.1 hx.greedy.matches
      simp at hy
    · intro text
      simp [Option.map_map, Function.comp_def]
  have hgroup := hdigits.group (w := fun p => (pairText p).tail) (by
    intro text p rest h
    rcases Option.or_eq_some_iff.1 h with h | ⟨_, h⟩
    · obtain ⟨_, ha, he⟩ := Option.map_eq_some_iff.1 h
      cases he
      exact after?_eq_some_iff.1 ha
    · obtain ⟨_, ha, he⟩ := Option.map_eq_some_iff.1 h
      cases he
      exact after?_eq_some_iff.1 ha)
  refine (hgroup.after ['R']).congr (k := id) ?_ fun _ => rfl
  intro text
  cases text with
  | nil => rfl
  | cons c text =>
    by_cases hc : 'R' = c
    · simp only [readPair?, after?, hc, if_true, Option.bind_some]
      cases after? ['0', '1'] text <;> cases after? ['2', '3'] text <;> rfl
    · simp [readPair?, after?, hc]

theorem reads_literal : literal.Reads readLiteral? fun w => [Slot.literal.captured w] := by
  have halt : (alt (seq (text ['0', 'x']) (run isHexDigit)) (run isDigit)).Reads readLiteral?
      fun _ => [] := by
    refine ((reads_run isHexDigit).after ['0', 'x']).alt (reads_run isDigit) ?_ (k := .hex)
      (l := .decimal) ?_ (fun _ => rfl) fun _ => rfl
    · intro x rest o y o' hx hy hmatch
      obtain ⟨_, hdigits, _⟩ := matches_run_iff.1 hmatch
      obtain ⟨zero, tail, _, _, rfl, _, hzero, _⟩ := matches_seq_iff.1 hx.greedy.matches
      obtain ⟨rfl, _⟩ := matches_text_iff.1 hzero
      rcases y with _ | ⟨c, _ | ⟨d, y⟩⟩
      · simp
      · simp
      · have hd : d = 'x' := by simp_all
        have := hdigits d (by simp)
        rw [hd] at this
        exact absurd this (by decide)
    · intro text
      simp only [readLiteral?]
      cases (after? ['0', 'x'] text).bind (readRun? isHexDigit) <;> rfl
  refine halt.group ?_
  intro text w rest h
  rw [readLiteral?] at h
  split at h
  · rename_i digits _ hread
    obtain ⟨tail, ha, hr⟩ := Option.bind_eq_some_iff.1 hread
    cases h
    rw [after?_eq_some_iff.1 ha, readRun?_eq_append hr]
    rfl
  · obtain ⟨⟨digits, _⟩, hr, he⟩ := Option.map_eq_some_iff.1 h
    cases he
    exact readRun?_eq_append hr

theorem reads_name : name.Reads readName? fun name => [name.toList] := by
  have hname : (seq (one isNameStart) (many (one isWord))).Reads readName? fun _ => [] := by
    refine (reads_one _).seq (reads_many_one _) (apart_of_not_lengthens fun _ => not_lengthens_one)
      (k := fun c cs => String.ofList (c :: cs)) ?_ fun _ _ => rfl
    intro text
    cases text with
    | nil => rfl
    | cons c text =>
      by_cases hc : isNameStart c = true
      · simp [readName?, Option.filter, hc]
      · simp [readName?, Option.filter, hc]
  refine hname.group ?_
  intro text name rest h
  cases text with
  | nil => cases h
  | cons c text =>
    rw [readName?] at h
    split at h
    · cases h
      simp [List.takeWhile_append_dropWhile]
    · cases h

theorem Reads.parens {α : Type} {r : Pattern} {read : List Char → Option (α × List Char)}
    {captured : α → List (List Char)} (h : r.Reads read captured) (hr : r.Within (· != ')')) :
    (Pattern.parens r).Reads (readParens? read) captured := by
  have hclose : Apart r (text [')']) := by
    apply apart_of_within hr
    simp [starts]
  refine ((h.before hclose).after ['(']).congr (k := id) ?_ fun _ => rfl
  intro text
  simp only [readParens?, Option.bind_eq_bind, Option.pure_def]
  cases after? ['('] text with
  | none => rfl
  | some tail =>
    simp only [Option.bind_some]
    cases read tail with
    | none => rfl
    | some m => cases hm : after? [')'] m.2 <;> simp [hm]

theorem reads_space : (run isSpace).Reads (fun text => (afterSpace? text).map fun rest => ((), rest))
    fun _ => [] := by
  refine (reads_run isSpace).congr (k := fun _ => ()) ?_ fun _ => rfl
  intro text
  cases text with
  | nil => rfl
  | cons c text =>
    by_cases hc : isSpace c = true
    · simp [afterSpace?, readRun?, hc, dropSpace]
    · simp [afterSpace?, readRun?, hc]

theorem reads_comma : comma.Reads (fun text => (afterComma? text).map fun rest => ((), rest))
    fun _ => [] := by
  have hapart : Apart (many (one isSpace)) (seq (text [',']) (many (one isSpace))) := by
    apply apart_of_within (show (many (one isSpace)).Within isSpace from fun _ hc => hc)
    intro c hc
    obtain rfl : ',' = c := by simpa [starts, nullable] using hc
    decide
  refine (reads_many_one _).seq ((reads_many_one _).after [',']) hapart (k := fun _ _ => ()) ?_
    fun _ _ => rfl
  intro text
  cases hm : after? [','] (dropSpace text) with
  | none => simp_all [afterComma?, dropSpace]
  | some rest => simp_all [afterComma?, dropSpace]

theorem matches_many_unit_iff {x : List Char} {o : List (List Char)} :
    (many unit).Matches x o ↔ Body x ∧ o = [] := by
  constructor
  · intro h
    generalize hr : many unit = r at h
    induction h with
    | done => exact ⟨.nil, rfl⟩
    | more hx _ _ ih =>
      cases hr
      obtain ⟨hbody, rfl⟩ := ih rfl
      cases hx with
      | left hx =>
        cases hx with
        | one hc =>
          obtain ⟨hquote, hback⟩ := of_decide_eq_true hc
          exact ⟨.plain hquote hback hbody, rfl⟩
      | right hx =>
        cases hx with
        | seq hback hc =>
          cases hback
          cases hc with
          | one hc => exact ⟨.pair (of_decide_eq_true hc) hbody, rfl⟩
    | _ => cases hr
  · rintro ⟨h, rfl⟩
    induction h with
    | nil => exact .done
    | plain hquote hback _ ih =>
      exact .more (.left (.one (decide_eq_true ⟨hquote, hback⟩))) ih
    | pair hline _ ih =>
      exact .more (.right (.seq (.text ['\\']) (.one (decide_eq_true hline)))) ih

theorem greedy_many_unit {body : List Char} (h : Body body) (rest : List Char) :
    (many unit).Greedy body ('"' :: rest) [] := by
  induction h with
  | nil =>
    apply Greedy.done
    apply misses_of_head rfl
    intro c hc
    cases hc
    rfl
  | plain hquote hback _ ih =>
    exact .more (.left (.one (decide_eq_true ⟨hquote, hback⟩) _)) ih
  | pair hline _ ih =>
    refine .more (.right ?_ (.seq (.text ['\\'] _) (.one (decide_eq_true hline) _))) ih
    apply misses_of_head rfl
    intro c hc
    cases hc
    rfl

theorem readBody?_go_sound {front found : List Char} (h : readBody?.go front text = some (found, rest)) :
    ∃ body, found = front.reverse ++ body ∧ text = body ++ '"' :: rest ∧ Body body := by
  fun_induction readBody?.go front text with
  | case1 => cases h
  | case2 front tail =>
    cases h
    exact ⟨[], by simp, rfl, .nil⟩
  | case3 => cases h
  | case4 => cases h
  | case5 front c tail hline ih =>
    obtain ⟨body, rfl, rfl, hbody⟩ := ih h
    exact ⟨'\\' :: c :: body, by simp, rfl, .pair hline hbody⟩
  | case6 front c tail hquote hback ih =>
    obtain ⟨body, rfl, rfl, hbody⟩ := ih h
    exact ⟨c :: body, by simp, rfl, .plain hquote hback hbody⟩

theorem reads_string : string.Reads readBody? fun body => [body] := by
  have hread : ∀ {text y : List Char} {o : List (List Char)}, y <+: text → string.Matches y o →
      ∃ body rest, y = body ++ ['"'] ∧ o = [body] ∧ readBody? text = some (body, rest) := by
    rintro _ y o ⟨tail, rfl⟩ hmatch
    obtain ⟨body, quote, _, _, rfl, rfl, hbody, hquote⟩ := matches_seq_iff.1 hmatch
    obtain ⟨rfl, rfl⟩ := matches_text_iff.1 hquote
    cases hbody with
    | group hunits =>
      obtain ⟨hbody, rfl⟩ := matches_many_unit_iff.1 hunits
      refine ⟨body, tail, rfl, rfl, ?_⟩
      rw [List.append_assoc]
      exact hbody.readBody?_append tail
  constructor
  · intro text rest body h
    obtain ⟨_, he, htext, hbody⟩ := readBody?_go_sound h
    obtain rfl : body = _ := he
    refine ⟨body ++ ['"'], by simp [htext], ?_⟩
    have hgreedy : string.Greedy (body ++ ['"']) rest ([body] ++ []) :=
      .seq (.group (greedy_many_unit hbody rest)) (.text ['"'] rest)
    refine ⟨hgreedy, ?_⟩
    intro y o hy hmatch
    rw [List.append_assoc] at hy
    obtain ⟨other, _, rfl, rfl, hother⟩ := hread hy hmatch
    rw [List.singleton_append, hbody.readBody?_append] at hother
    cases hother
    exact .inr ⟨rfl, rfl⟩
  · rintro text h y hy ⟨o, hmatch⟩
    obtain ⟨body, rest, _, _, hsome⟩ := hread hy hmatch
    rw [h] at hsome
    cases hsome

end Pattern

theorem Pattern.within_register {kind : Char → Bool} (hr : kind 'R' = true)
    (hdigit : ∀ c, isDigit c = true → kind c = true) : register.Within kind :=
  ⟨by simp [Within, hr], hdigit, hdigit⟩

theorem Pattern.within_pair {kind : Char → Bool} (h : ['R', '0', '1', '2', '3'].all kind = true) :
    pair.Within kind := by
  simp only [List.all_cons, List.all_nil, Bool.and_true, Bool.and_eq_true] at h
  simp [pair, Within, h]

theorem Slot.reads (s : Slot) : s.pattern.Reads s.read? fun v => [s.captured v] := by
  cases s with
  | register => exact reads_register
  | indirect =>
    apply reads_register.parens
    apply within_register (by decide)
    intro c hc
    have hne : c ≠ ')' := by
      rintro rfl
      exact absurd hc (by decide)
    simpa using hne
  | pair => exact reads_pair
  | indirectPair => exact reads_pair.parens (within_pair (by decide))
  | literal => exact reads_literal
  | name => exact reads_name

theorem Slot.within (s : Slot) : s.pattern.Within (!isGap ·) := by
  have hdigit : ∀ c, isDigit c = true → (!isGap c) = true := by
    intro c hc
    simp [isGap_of_isDigit hc]
  have hword : ∀ c, isWord c = true → (!isGap c) = true := by
    intro c hc
    simp [isGap_of_isWord hc]
  have hhex : ∀ c, isHexDigit c = true → (!isGap c) = true := fun c hc =>
    hword c (isWord_of_isHexDigit hc)
  have hregister : Pattern.register.Within (!isGap ·) := within_register (by decide) hdigit
  have hpair : Pattern.pair.Within (!isGap ·) := within_pair (by decide)
  cases s with
  | register => exact hregister
  | indirect => exact ⟨rfl, hregister, rfl⟩
  | pair => exact hpair
  | indirectPair => exact ⟨rfl, hpair, rfl⟩
  | literal => exact ⟨⟨rfl, hhex, hhex⟩, hdigit, hdigit⟩
  | name => exact ⟨fun c hc => hword c (isWord_of_isNameStart hc), hword⟩

theorem Slot.nullable (s : Slot) : s.pattern.nullable = false := by
  cases s <;> rfl

theorem Slot.isGap_of_starts {s : Slot} {q : Pattern} (h : (seq s.pattern q).starts c = true) :
    isGap c = false := by
  simp only [starts, s.nullable, Bool.false_and, Bool.or_false] at h
  simpa using s.within.of_starts h

namespace Operands

variable {slots : List Slot} {lead last : Pattern}

theorem isGap_of_starts (hlead : lead.Within isGap) (hnullable : lead.nullable = false)
    (hlast : last.Within isGap) (h : (Operands.pattern last slots lead).starts c = true) :
    isGap c = true := by
  cases slots with
  | nil => exact hlast.of_starts h
  | cons s ss =>
    simp only [Operands.pattern, starts, hnullable, Bool.false_and, Bool.or_false] at h
    exact hlead.of_starts h

theorem within_comma : comma.Within isGap :=
  ⟨fun _ => isGap_of_isSpace, rfl, fun _ => isGap_of_isSpace⟩

/-- Operands are read as their patterns say, up to what belongs to them behind the last. -/
theorem reads (slots : List Slot) {behind : List Char → Option (List Char)}
    (hread : lead.Reads (fun text => (behind text).map fun rest => ((), rest)) fun _ => [])
    (hlead : lead.Within isGap) {finish : List Char → List Char}
    (hfinish : last.Reads (fun text => some ((), finish text)) fun _ => [])
    (hlast : last.Within isGap) :
    (Operands.pattern last slots lead).Reads
      (fun text => (Operands.read? slots behind text).map fun m => (m.1, finish m.2))
      (Operands.captured slots) := by
  induction slots generalizing lead behind with
  | nil => exact hfinish
  | cons s ss ih =>
    have hsome : Apart s.pattern (Operands.pattern last ss comma) := by
      apply apart_of_within s.within
      intro c hc
      simp [isGap_of_starts within_comma rfl hlast hc]
    have hfirst : Apart lead (seq s.pattern (Operands.pattern last ss comma)) := by
      apply apart_of_within hlead
      intro c hc
      simp [Slot.isGap_of_starts hc]
    have hrest : (seq s.pattern (Operands.pattern last ss comma)).Reads _
        (Operands.captured (s :: ss)) :=
      s.reads.seq (ih reads_comma within_comma) hsome (k := Prod.mk) (fun _ => rfl) fun _ _ => rfl
    refine (hread.skip hrest hfirst).congr (k := id) ?_ fun _ => rfl
    intro text
    simp only [Operands.read?, Option.bind_eq_bind, Option.pure_def]
    cases behind text with
    | none => rfl
    | some first =>
      simp only [Option.bind_some]
      cases s.read? first with
      | none => rfl
      | some m => cases hm : Operands.read? ss afterComma? m.2 <;> simp [hm]

end Operands

namespace Form

theorem reads_label : label.pattern.Reads Statement.label? Statement.captured := by
  have hword : Pattern.name.Within isWord :=
    ⟨fun _ hc => isWord_of_isNameStart hc, fun _ hc => hc⟩
  have hcolon : Apart Pattern.name (text [':']) := by
    apply apart_of_within hword
    intro c hc
    obtain rfl : ':' = c := by simpa [starts] using hc
    decide
  refine (reads_name.before hcolon).congr (k := .label) ?_ fun _ => rfl
  intro text
  simp only [Statement.label?, Option.bind_eq_bind, Option.pure_def]
  cases readName? text with
  | none => rfl
  | some m => cases hm : after? [':'] m.2 <;> simp [hm]

theorem reads_data : data.pattern.Reads Statement.data? Statement.captured := by
  have hspace : Apart (run isSpace) (seq (text ['"']) string) := by
    have hrun : (run isSpace).Within isSpace := ⟨fun _ hc => hc, fun _ hc => hc⟩
    apply apart_of_within hrun
    intro c hc
    obtain rfl : '"' = c := by simpa [starts, Pattern.nullable] using hc
    decide
  have hgap := reads_space.skip (reads_string.after ['"']) hspace
  refine (hgap.after ['.', 'a', 's', 'c', 'i', 'i']).congr (k := .data) ?_ fun _ => rfl
  intro text
  simp only [Statement.data?, Option.bind_eq_bind, Option.pure_def]
  cases after? ['.', 'a', 's', 'c', 'i', 'i'] text with
  | none => rfl
  | some gap =>
    simp only [Option.bind_some]
    cases afterSpace? gap with
    | none => rfl
    | some quote =>
      simp only [Option.bind_some]
      cases after? ['"'] quote with
      | none => rfl
      | some tail => cases hm : readBody? tail <;> simp [hm]

theorem reads_instruction (op : Opcode) :
    (instruction op).pattern.Reads (Statement.instruction? op) Statement.captured := by
  have hgap : ∀ c, isSpace c = true → isGap c = true := fun _ => isGap_of_isSpace
  have hlast : (if op.takesSpace then many (one isSpace) else text []).Reads
      (fun text => some ((), if op.takesSpace then dropSpace text else text)) fun _ => [] := by
    cases op.takesSpace with
    | true => exact (reads_many_one isSpace).congr (k := fun _ => ()) (fun _ => rfl) fun _ => rfl
    | false => exact reads_text []
  have hwithin : (if op.takesSpace then many (one isSpace) else text []).Within isGap := by
    cases op.takesSpace with
    | true => exact hgap
    | false => rfl
  have hoperands := Operands.reads op.slots reads_space ⟨hgap, hgap⟩ hlast hwithin
  refine (hoperands.after op.word).congr (k := .instruction op) ?_ fun _ => rfl
  intro text
  simp only [Statement.instruction?, readInstruction?, Option.bind_eq_bind, Option.pure_def]
  cases after? op.word text with
  | none => rfl
  | some tail => cases hm : Operands.read? op.slots afterSpace? tail <;> simp [hm]

theorem reads (form : Form) : form.pattern.Reads form.read? Statement.captured := by
  cases form with
  | label => exact reads_label
  | data => exact reads_data
  | instruction op => exact reads_instruction op

end Form

end Source

end ByteAsm
