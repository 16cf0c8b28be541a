import ByteAsm.Proofs.Recognition

/-! The order in which a text is tried against the forms of statements. No two forms other than labels stand
at the front of the same text, so any order of them gives the same steps. A label stands where an instruction
does only if its name begins with a mnemonic without operands, and it is read as a label only if labels are
tried before this mnemonic. -/
namespace ByteAsm

open Text

namespace Source

open Pattern

variable {text rest : List Char}

theorem findSome?_perm {α β : Type} {as bs : List α} {f : α → Option β} (hperm : as.Perm bs)
    (hagree : ∀ a ∈ bs, ∀ b ∈ bs, ∀ c d, f a = some c → f b = some d → c = d) :
    as.findSome? f = bs.findSome? f := by
  cases hb : bs.findSome? f with
  | none =>
    apply List.findSome?_eq_none_iff.2
    intro a ha
    exact List.findSome?_eq_none_iff.1 hb a (hperm.mem_iff.1 ha)
  | some d =>
    obtain ⟨b, hmem, hd⟩ := List.exists_of_findSome?_eq_some hb
    apply findSome?_eq_some_of_mem (hperm.mem_iff.2 hmem) hd
    intro a ha c hc
    exact hagree a (hperm.mem_iff.1 ha) b hmem c d hc hd

/-- A label at the front of a text whose name begins with a mnemonic. -/
def LabelOver (op : Opcode) (text : List Char) : Prop :=
  ∃ name rest, text = name ++ ':' :: rest ∧ IsName name ∧ op.word <+: name

theorem IsName.isWord {name : List Char} (h : IsName name) : ∀ c ∈ name, isWord c = true := by
  obtain ⟨c, tail, rfl, hc, htail⟩ := h
  simpa [isWord_of_isNameStart hc] using htail

theorem isPrefix_name {x name : List Char} (hx : x <+: name ++ ':' :: rest) (hcolon : ':' ∉ x) :
    x <+: name := by
  rcases List.prefix_or_prefix_of_prefix hx (List.prefix_append name (':' :: rest)) with h | ⟨more, rfl⟩
  · exact h
  · cases more with
    | nil => simp
    | cons c more =>
      obtain ⟨rfl, _⟩ := List.cons_prefix_cons.1 ((List.prefix_append_right_inj name).1 hx)
      simp at hcolon

theorem colon_not_mem {x : List Char} (hx : ∀ c ∈ x, isWord c = true) : ':' ∉ x :=
  fun hmem => absurd (hx ':' hmem) (by decide)

theorem isWord_or_colon {x name : List Char} {c : Char} (hname : IsName name)
    (hx : x ++ [c] <+: name ++ ':' :: rest) (hword : ∀ d ∈ x, isWord d = true) :
    isWord c = true ∨ c = ':' := by
  by_cases hc : c = ':'
  · exact .inr hc
  · have hcolon : ':' ∉ x ++ [c] := by
      simp [colon_not_mem hword, Ne.symm hc]
    exact .inl (hname.isWord c ((isPrefix_name hx hcolon).subset (by simp)))

namespace Form

variable {form : Form} {op : Opcode}

theorem begins_iff : form.pattern.Begins text ↔ ∃ p, form.read? text = some p := by
  rw [begins_iff_not_misses, misses_iff]
  exact Option.ne_none_iff_exists'

theorem begins_label_iff :
    label.pattern.Begins text ↔ ∃ name rest, text = name ++ ':' :: rest ∧ IsName name := by
  constructor
  · rintro ⟨x, ⟨rest, rfl⟩, _, hmatch⟩
    obtain ⟨name, colon, _, _, rfl, _, hname, hcolon⟩ := matches_seq_iff.1 hmatch
    obtain ⟨rfl, _⟩ := matches_text_iff.1 hcolon
    cases hname with
    | group hname =>
      obtain ⟨first, tail, _, _, rfl, _, hfirst, htail⟩ := matches_seq_iff.1 hname
      cases hfirst with
      | @one _ c hc =>
        exact ⟨c :: tail, rest, by simp, c, tail, rfl, hc, (matches_many_one_iff.1 htail).1⟩
  · rintro ⟨name, rest, rfl, c, tail, rfl, hc, htail⟩
    have hname : Pattern.name.Matches (c :: tail) [c :: tail] :=
      .group (.seq (.one hc) (matches_many_one_iff.2 ⟨htail, rfl⟩))
    exact ⟨c :: tail ++ [':'], ⟨rest, by simp⟩, _, .seq hname (.text [':'])⟩

theorem begins_of_slots_nil (hs : op.slots = []) (h : op.word <+: text) :
    (instruction op).pattern.Begins text := by
  obtain ⟨rest, rfl⟩ := h
  have hoperands : ∀ slots, slots = [] → ∃ p, Operands.read? slots afterSpace? rest = some p := by
    rintro _ rfl
    exact ⟨_, rfl⟩
  obtain ⟨p, hp⟩ := hoperands op.slots hs
  apply begins_iff.2
  simp [read?, Statement.instruction?, readInstruction?, after?_append, hp]

theorem not_begins_data (h : label.pattern.Begins text) : ¬ data.pattern.Begins text := by
  rintro ⟨x, hx, _, hmatch⟩
  obtain ⟨name, rest, rfl, hname⟩ := begins_label_iff.1 h
  obtain ⟨dot, tail, _, _, rfl, _, hdot, _⟩ := matches_seq_iff.1 hmatch
  obtain ⟨rfl, _⟩ := matches_text_iff.1 hdot
  have hfirst : [] ++ ['.'] <+: name ++ ':' :: rest := List.IsPrefix.trans (by simp) hx
  exact absurd (isWord_or_colon hname hfirst (by simp)) (by decide)

theorem slots_nil_of_label (h : label.pattern.Begins text) (hop : (instruction op).pattern.Begins text) :
    op.slots = [] ∧ LabelOver op text := by
  obtain ⟨x, hx, haccepts⟩ := hop
  obtain ⟨name, rest, rfl, hname⟩ := begins_label_iff.1 h
  obtain ⟨tail, rfl, htail⟩ := word_of_accepts haccepts
  have hword := op.isWord_of_mem_word
  refine ⟨?_, name, rest, rfl, hname,
    isPrefix_name ((List.prefix_append op.word tail).trans hx) (colon_not_mem hword)⟩
  by_contra hs
  obtain ⟨c, left, rfl, hc⟩ := htail hs
  have hfirst : op.word ++ [c] <+: name ++ ':' :: rest := List.IsPrefix.trans ⟨left, by simp⟩ hx
  rcases isWord_or_colon hname hfirst hword with hchar | rfl
  · rw [isWord_of_isSpace hc] at hchar
    cases hchar
  · exact absurd hc (by decide)

/-- A label stands together with an instruction without operands if its name begins with the mnemonic, and
with no other form. -/
theorem begins_with_label_iff (hne : form ≠ label) :
    label.pattern.Begins text ∧ form.pattern.Begins text ↔
      ∃ op ∈ [Opcode.hlt, .nop, .ret], form = instruction op ∧ LabelOver op text := by
  have hslots : ∀ op ∈ Opcode.trialOrder, op.slots = [] ↔ op ∈ [Opcode.hlt, .nop, .ret] := by decide
  constructor
  · rintro ⟨hlabel, hform⟩
    cases form with
    | label => exact absurd rfl hne
    | data => exact absurd hform (not_begins_data hlabel)
    | instruction op =>
      obtain ⟨hs, hover⟩ := slots_nil_of_label hlabel hform
      exact ⟨op, (hslots op op.mem_trialOrder).1 hs, rfl, hover⟩
  · rintro ⟨op, hop, rfl, name, rest, rfl, hname, hbegin⟩
    refine ⟨begins_label_iff.2 ⟨name, rest, rfl, hname⟩, ?_⟩
    exact begins_of_slots_nil ((hslots op op.mem_trialOrder).2 hop) (hbegin.trans (List.prefix_append _ _))

end Form

namespace Statement

/-- Read with the first of some readers that fits. -/
def readFirst? (readers : List Reader) : Reader := fun text => readers.findSome? (· text)

theorem read?_eq_readFirst? : read? = readFirst? (label? :: (forms ++ [unknown?])) := by
  funext text
  simp only [read?, readFirst?, List.findSome?_cons, List.findSome?_append, List.findSome?_nil]
  cases label? text <;> cases forms.findSome? (· text) <;> cases unknown? text <;> rfl

theorem findSome?_forms {order : List Reader} (h : order.Perm forms) (text : List Char) :
    order.findSome? (· text) = forms.findSome? (· text) :=
  findSome?_perm h fun _ hread _ hother _ _ => Form.eq_of_mem_forms hread hother

variable {before after : List Reader}

theorem readFirst?_of_none (h : (before ++ after).Perm forms)
    (hnone : before.findSome? (· text) = none) :
    readFirst? (before ++ label? :: (after ++ [unknown?])) text = read? text := by
  have hafter : after.findSome? (· text) = forms.findSome? (· text) := by
    rw [← findSome?_forms h, List.findSome?_append, hnone, Option.none_or]
  rw [read?_eq_readFirst?]
  simp only [readFirst?, List.findSome?_append, List.findSome?_cons, hnone, hafter, Option.none_or]

theorem readFirst?_of_some {p : Statement × List Char} (hsome : before.findSome? (· text) = some p) :
    readFirst? (before ++ label? :: (after ++ [unknown?])) text = some p := by
  simp only [readFirst?, List.findSome?_append, hsome, Option.some_or]

end Statement

end Source

namespace State

open Source Pattern

variable {s : State} {text rest : List Char} {statement : Statement} {read other : Statement.Reader}

theorem stepWith_congr (act : Statement.Meaning) (h : read (skipBlanks text) = other (skipBlanks text))
    (s : State) : (s.withText text).stepWith read act = (s.withText text).stepWith other act := by
  simp only [stepWith, withText, h]

theorem notices_execute_instruction {op : Opcode} (h : statement.form? = some (.instruction op)) :
    (s.execute statement).notices = [] := by
  cases statement with
  | instruction op operands =>
    cases hi : op.instruction operands with
    | error e => rw [execute_of_error (by rw [Statement.action_instruction, hi])]
    | ok i =>
      rw [execute_of_ok (by rw [Statement.action_instruction, hi])]
      cases i <;> rfl
  | _ => cases h

theorem notices_execute_label (h : statement.form? = some .label) :
    (s.execute statement).notices ≠ [] := by
  cases statement with
  | label name => exact List.cons_ne_nil _ _
  | _ => cases h

/-- Where labels are tried behind other forms, a step differs exactly if one of these is an instruction
without operands and the name of a label begins with its mnemonic. -/
theorem stepWith_label_behind {before after : List Statement.Reader}
    (h : (before ++ after).Perm Statement.forms) (s : State) (text : List Char) :
    (s.withText text).stepWith (Statement.readFirst?
          (before ++ Statement.label? :: (after ++ [Statement.unknown?]))) Statement.action =
        (s.withText text).step ↔
      ¬ ∃ op ∈ [Opcode.hlt, .nop, .ret],
        Statement.instruction? op ∈ before ∧ LabelOver op (skipBlanks text) := by
  rw [step]
  cases hb : before.findSome? (· (skipBlanks text)) with
  | none =>
    refine iff_of_true (stepWith_congr _ (Statement.readFirst?_of_none h hb) s) ?_
    rintro ⟨op, hop, hmem, hover⟩
    obtain ⟨_, hbegins⟩ := (Form.begins_with_label_iff (by simp)).2 ⟨op, hop, rfl, hover⟩
    obtain ⟨p, hp⟩ := Form.begins_iff.1 hbegins
    have hnone := List.findSome?_eq_none_iff.1 hb _ hmem
    rw [show Statement.instruction? op (skipBlanks text) = some p from hp] at hnone
    cases hnone
  | some p =>
    obtain ⟨read, hmem, hp⟩ := List.exists_of_findSome?_eq_some hb
    obtain ⟨form, hne, rfl⟩ := Form.mem_forms_iff.1 (h.mem_iff.1 (List.mem_append_left after hmem))
    by_cases hlabel : Form.label.pattern.Begins (skipBlanks text)
    · obtain ⟨op, hop, rfl, hover⟩ :=
        (Form.begins_with_label_iff hne).1 ⟨hlabel, Form.begins_iff.2 ⟨p, hp⟩⟩
      refine iff_of_false ?_ (not_not.2 ⟨op, hop, hmem, hover⟩)
      obtain ⟨q, hq⟩ := Form.begins_iff.1 hlabel
      have hread := Form.read?_of_form (.inl rfl) hq
      intro he
      rw [stepWith_withText _ (Statement.readFirst?_of_some hb), stepWith_withText _ hread] at he
      have hnotices := congrArg Outcome.notices he
      change (s.execute p.1).notices = (s.execute q.1).notices at hnotices
      rw [notices_execute_instruction (Form.form?_of_read? hp)] at hnotices
      exact notices_execute_label (Form.form?_of_read? hq) hnotices.symm
    · have hmiss : Form.label.pattern.Misses (skipBlanks text) :=
        not_not.1 (mt begins_iff_not_misses.2 hlabel)
      refine iff_of_true (stepWith_congr _ ?_ s) ?_
      · rw [Statement.readFirst?_of_some hb, Form.read?_of_form (.inr hmiss) hp]
      · rintro ⟨op, hop, _, hover⟩
        exact hlabel ((Form.begins_with_label_iff (by simp)).2 ⟨op, hop, rfl, hover⟩).1

/-- Behind labels, the order in which a step tries the forms of statements does not matter: at most one of
them stands at the front of a text. A label stands there together with a halt, a no-operation or a return
whose mnemonic its name begins with, and with no other form; only for such a name does it matter that labels
come first. -/
theorem step_any_order :
    (∀ (text : List Char) (form other : Form), form ≠ .label → other ≠ .label →
        form.pattern.Begins text → other.pattern.Begins text → form = other) ∧
      (∀ order : List Statement.Reader, order.Perm Statement.forms → ∀ s : State,
        s.stepWith (Statement.readFirst? (Statement.label? :: (order ++ [Statement.unknown?])))
          Statement.action = s.step) ∧
      (∀ (text : List Char) (form : Form), form ≠ .label →
        (Form.label.pattern.Begins text ∧ form.pattern.Begins text ↔
          ∃ op ∈ [Opcode.hlt, .nop, .ret], form = .instruction op ∧ LabelOver op text)) ∧
      ∀ before after : List Statement.Reader, (before ++ after).Perm Statement.forms →
        ∀ (s : State) (text : List Char),
          ((s.withText text).stepWith (Statement.readFirst?
                (before ++ Statement.label? :: (after ++ [Statement.unknown?]))) Statement.action =
              (s.withText text).step ↔
            ¬ ∃ op ∈ [Opcode.hlt, .nop, .ret],
              Statement.instruction? op ∈ before ∧ LabelOver op (skipBlanks text)) := by
  refine ⟨?_, ?_, fun _ _ => Form.begins_with_label_iff, fun _ _ => stepWith_label_behind⟩
  · rintro text form other hform hother ⟨x, hx, haccepts⟩ ⟨y, hy, haccepts'⟩
    exact Form.eq_of_accepts hx hy haccepts haccepts' hform hother
  · intro order h s
    have hread : Statement.readFirst? (Statement.label? :: (order ++ [Statement.unknown?])) =
        Statement.read? := by
      funext text
      exact Statement.readFirst?_of_none (show ([] ++ order).Perm Statement.forms from h) rfl
    rw [hread, step]

/-- A label whose name begins with the mnemonic of a return. -/
theorem step_any_order_retry :
    LabelOver .ret "RETRY:".toList ∧
      (fresh.withText "RETRY:".toList).stepWith (Statement.readFirst?
          (Statement.label? :: (Statement.forms.reverse ++ [Statement.unknown?]))) Statement.action =
        (fresh.withText "RETRY:".toList).step ∧
      (fresh.withText "RETRY:".toList).stepWith (Statement.readFirst?
          (Statement.forms ++ [Statement.label?, Statement.unknown?])) Statement.action ≠
        (fresh.withText "RETRY:".toList).step := by
  have hover : LabelOver .ret "RETRY:".toList := by
    refine ⟨"RETRY".toList, [], rfl, ⟨'R', "ETRY".toList, rfl, by decide, ?_⟩, ⟨"RY".toList, rfl⟩⟩
    exact List.all_eq_true.1 (by decide)
  have hskip : skipBlanks "RETRY:".toList = "RETRY:".toList := skipBlanks_of_none rfl
  obtain ⟨_, horder, _, hplace⟩ := step_any_order
  refine ⟨hover, horder _ (List.reverse_perm _) _, ?_⟩
  refine mt (hplace Statement.forms [] (by simp) fresh _).1 (not_not.2 ?_)
  rw [hskip]
  exact ⟨.ret, by simp, Form.mem_forms_iff.2 ⟨.instruction .ret, by simp, rfl⟩, hover⟩

end State

end ByteAsm
