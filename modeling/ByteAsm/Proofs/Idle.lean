import ByteAsm.Proofs.Naming
import ByteAsm.Proofs.Repatching
import ByteAsm.Proofs.Stopping

/-! Statements that change nothing. At the end of a text they leave the outcome of its assembly as it is, and
no other statements do. -/
namespace ByteAsm

open Source

namespace Source

/-- A statement that changes neither the image nor the books: a string without characters, or a token
that is not known. -/
def Statement.Idle : Statement → Prop
  | data body => bodyBytes body = .ok []
  | unknown _ => True
  | label _ | instruction _ _ => False

/-- A statement that would change nothing in a state: an idle one, or a label that is there already. -/
def Statement.IdleIn (s : State) : Statement → Prop
  | label name => s.labels[name]? = some s.code
  | statement => statement.Idle

end Source

namespace State

variable {s t : State} {list tail : List Statement} {text longer : List Char} {as : List Action}

/-- The same image and the same books, whatever is left of the text. -/
structure Same (s t : State) : Prop where
  image : s.image = t.image
  code : s.code = t.code
  data : s.data = t.data
  labels : ∀ name : String, s.labels[name]? = t.labels[name]?
  references : s.references = t.references

theorem same_withText : (s.withText text).Same t ↔ s.Same t := by
  constructor
  · rintro ⟨himage, hcode, hdata, hlabels, hrefs⟩
    exact ⟨himage, hcode, hdata, hlabels, hrefs⟩
  · rintro ⟨himage, hcode, hdata, hlabels, hrefs⟩
    exact ⟨himage, hcode, hdata, hlabels, hrefs⟩

theorem Same.refl (s : State) : s.Same s := ⟨rfl, rfl, rfl, fun _ => rfl, rfl⟩

theorem Same.symm (h : s.Same t) : t.Same s :=
  ⟨h.image.symm, h.code.symm, h.data.symm, fun name => (h.labels name).symm, h.references.symm⟩

theorem Same.patch (h : s.Same t) (r : Reference) :
    (s.patch r).fault = (t.patch r).fault ∧ (s.patch r).state.Same (t.patch r).state := by
  have hlabels := h.labels r.label
  cases hl : s.labels[r.label]? with
  | none =>
    rw [hl] at hlabels
    rw [patch_of_undefined hl, patch_of_undefined hlabels.symm]
    exact ⟨rfl, h⟩
  | some addr =>
    rw [hl] at hlabels
    rw [patch_of_defined hl, patch_of_defined hlabels.symm, h.image]
    exact ⟨rfl, rfl, h.code, h.data, h.labels, h.references⟩

theorem Same.forEach_patch (h : s.Same t) (rs : List Reference) :
    (Outcome.forEach State.patch s rs).fault = (Outcome.forEach State.patch t rs).fault ∧
      (Outcome.forEach State.patch s rs).state.Same (Outcome.forEach State.patch t rs).state := by
  induction rs generalizing s t with
  | nil => exact ⟨rfl, h⟩
  | cons r rs ih =>
    obtain ⟨hfault, hnext⟩ := h.patch r
    rw [Outcome.forEach_cons, Outcome.forEach_cons]
    cases hf : (t.patch r).fault with
    | none =>
      rw [hf] at hfault
      simp only [Outcome.fault_andThen _ hf, Outcome.fault_andThen _ hfault,
        Outcome.state_andThen _ hf, Outcome.state_andThen _ hfault]
      exact ih hnext
    | some e =>
      rw [hf] at hfault
      rw [Outcome.andThen_of_fault _ hf, Outcome.andThen_of_fault _ hfault, hfault, hf]
      exact ⟨rfl, hnext⟩

theorem Same.resolve (h : s.Same t) :
    s.resolve.fault = t.resolve.fault ∧ s.resolve.state.Same t.resolve.state := by
  rw [State.resolve, State.resolve, h.references]
  exact h.forEach_patch t.references.toList

theorem Same.andThen_resolve {o p : Outcome State} (h : o.state.Same p.state)
    (hf : o.fault = p.fault) :
    (o.andThen State.resolve).fault = (p.andThen State.resolve).fault ∧
      (o.andThen State.resolve).state.Same (p.andThen State.resolve).state := by
  cases hp : p.fault with
  | none =>
    rw [hp] at hf
    rw [Outcome.fault_andThen _ hf, Outcome.fault_andThen _ hp, Outcome.state_andThen _ hf,
      Outcome.state_andThen _ hp]
    exact h.resolve
  | some f =>
    rw [hp] at hf
    rw [Outcome.andThen_of_fault _ hf, Outcome.andThen_of_fault _ hp, hf, hp]
    exact ⟨rfl, h⟩

theorem execute_of_idleIn {statement : Statement} (h : statement.IdleIn t) (hs : s.Same t) :
    (s.execute statement).fault = none ∧ (s.execute statement).state.Same t := by
  cases statement with
  | label name =>
    refine ⟨rfl, hs.image, hs.code, hs.data, ?_, hs.references⟩
    intro other
    change (s.labels.insert name s.code)[other]? = t.labels[other]?
    rw [Std.TreeMap.getElem?_insert]
    split
    · rename_i heq
      obtain rfl : name = other := by simpa using heq
      rw [hs.code]
      exact h.symm
    · exact hs.labels other
  | data body =>
    have haction : (Statement.data body).action = .ok (.store .add []) := by
      rw [Statement.action_data, show bodyBytes body = .ok [] from h]
    simp only [execute_of_ok haction, perform_store, Image.place_nil]
    exact ⟨rfl, hs⟩
  | unknown token => exact ⟨rfl, hs⟩
  | instruction op operands => cases h

theorem forEach_execute_of_idleIn (h : ∀ statement ∈ list, statement.IdleIn t) (hs : s.Same t) :
    (Outcome.forEach execute s list).fault = none ∧ (Outcome.forEach execute s list).state.Same t := by
  induction list generalizing s with
  | nil => exact ⟨rfl, hs⟩
  | cons statement list ih =>
    obtain ⟨hf, hnext⟩ := execute_of_idleIn (h statement List.mem_cons_self) hs
    obtain ⟨hrest, hsame⟩ := ih (fun other hmem => h other (List.mem_cons_of_mem _ hmem)) hnext
    rw [Outcome.forEach_cons, Outcome.fault_andThen _ hf, Outcome.state_andThen _ hf]
    exact ⟨hrest, hsame⟩

theorem idleIn_resolve {statement : Statement} :
    statement.IdleIn s.resolve.state ↔ statement.IdleIn s := by
  obtain ⟨image, _, he⟩ := repatched_resolve s
  rw [he]
  cases statement <;> rfl

theorem program_of_statements_append (h : statements longer = statements text ++ tail) (s : State) :
    ∃ left, (s.withText longer).program =
      ((s.withText text).program.andThen fun s => Outcome.forEach execute s tail).retext (some left) := by
  obtain ⟨left, he, _⟩ := program_withText s longer
  obtain ⟨front, hfront, _⟩ := program_withText s text
  refine ⟨left, ?_⟩
  rw [he, hfront, h, Outcome.forEach_append]
  rcases Outcome.forEach execute s (statements text) with ⟨next, notices, _ | f⟩
  · simp only [Outcome.andThen, Outcome.retext, forEach_execute_retext]
    rfl
  · rfl

/-- Further statements leave the program as it is if it does not come to them or they would change
nothing. -/
theorem same_program (h : statements longer = statements text ++ tail)
    (hidle : (s.withText text).program.fault ≠ none ∨
      ∀ statement ∈ tail, statement.IdleIn (s.withText text).program.state) :
    (s.withText longer).program.fault = (s.withText text).program.fault ∧
      (s.withText longer).program.state.Same (s.withText text).program.state := by
  obtain ⟨left, hlonger⟩ := program_of_statements_append h s
  rw [hlonger]
  cases hf : (s.withText text).program.fault with
  | none =>
    obtain ⟨hrest, hsame⟩ := forEach_execute_of_idleIn (hidle.resolve_left (absurd hf)) (.refl _)
    rw [Outcome.retext, Outcome.fault_andThen _ hf, Outcome.state_andThen _ hf]
    exact ⟨hrest, same_withText.2 hsame⟩
  | some f =>
    rw [Outcome.andThen_of_fault _ hf]
    exact ⟨hf, same_withText.2 (.refl _)⟩

/-- Actions that add nothing to the books are those of statements that would change nothing. -/
theorem Records.idleIn {bs : List Action} (ht : t.Records as) (h : s.Records (as ++ bs))
    (hbs : HasActions list bs) (hsame : t.Same s) : ∀ statement ∈ list, statement.IdleIn t := by
  have hpads : Layout.pads bs = 0 := by
    have hsize := h.size
    rw [← hsame.image, ht.size, Layout.pads, Layout.pads, List.countP_append] at hsize
    simp only [Layout.pads]
    omega
  have hdraft : Layout.draft bs = [] := by
    have hcode := hsame.code
    rw [ht.code, h.code, Layout.draft_append, List.length_append] at hcode
    exact List.eq_nil_of_length_eq_zero (by omega)
  have hdata : Layout.data bs = [] := by
    have hdata := hsame.data
    rw [ht.data, h.data, Layout.data_append, List.length_append] at hdata
    exact List.eq_nil_of_length_eq_zero (by omega)
  intro statement hmem
  obtain ⟨before, after, rfl⟩ := List.append_of_mem hmem
  obtain ⟨bs, rest, rfl, _, hrest⟩ := HasActions.split hbs
  cases hrest with
  | @cons _ a _ cs ha _ =>
    have ha_mem : a ∈ bs ++ a :: cs := by simp
    cases Statement.acts_of_action ha with
    | label name =>
      change t.labels[name]? = some t.code
      rw [hsame.labels, h.labels, ht.code]
      exact Layout.address?_of_draft_nil as hdraft
    | @data body bytes hbody =>
      have hempty : bytes = [] := List.flatMap_eq_nil_iff.1 hdata _ ha_mem
      rwa [hempty] at hbody
    | nop => exact absurd rfl (List.countP_eq_zero.1 hpads _ ha_mem)
    | @instruction op operands i _ _ =>
      have hempty : i.draft = [] := List.flatMap_eq_nil_iff.1 hdraft _ ha_mem
      simp [Instruction.draft, Instruction.encode] at hempty
    | unknown token => trivial

theorem idleIn_of_same (h : statements longer = statements text ++ tail)
    (hp : (fresh.withText text).program.fault = none)
    (hf : ((fresh.withText longer).program.andThen State.resolve).fault =
      (fresh.withText text).program.state.resolve.fault)
    (hsame : ((fresh.withText longer).program.andThen State.resolve).state.Same
      (fresh.withText text).program.state.resolve.state) :
    ∀ statement ∈ tail, statement.IdleIn (fresh.withText text).program.state.resolve.state := by
  have hlonger : (fresh.withText longer).program.fault = none := by
    -- a program can only stop at a statement, and resolving cannot
    by_contra hne
    obtain ⟨f, hstop⟩ := Option.ne_none_iff_exists'.1 hne
    obtain ⟨as, has⟩ := actions_of_program hp
    rw [Outcome.andThen_of_fault _ hstop, hstop, (follows_fresh.program has hp).fault_resolve] at hf
    obtain ⟨r, _, rfl⟩ := Option.map_eq_some_iff.1 hf.symm
    cases ofStatement_of_program hstop
  rw [Outcome.state_andThen _ hlonger] at hsame
  obtain ⟨cs, hcs⟩ := actions_of_program hlonger
  have hrecords := (follows_fresh.program hcs hlonger).resolve.records
  rw [h] at hcs
  obtain ⟨as, bs, rfl, has, hbs⟩ := HasActions.split hcs
  exact (follows_fresh.program has hp).resolve.records.idleIn hrecords hbs hsame.symm

/-- Further statements leave the outcome as it is exactly if the program does not come to them or they
would change nothing. -/
theorem same_assembly_iff (h : statements longer = statements text ++ tail) :
    let plain := (fresh.withText text).program.andThen State.resolve
    let o := (fresh.withText longer).program.andThen State.resolve
    o.fault = plain.fault ∧ o.state.Same plain.state ↔
      (fresh.withText text).program.fault ≠ none ∨ ∀ statement ∈ tail, statement.IdleIn plain.state := by
  intro plain o
  cases hf : (fresh.withText text).program.fault with
  | some f =>
    have hstop : (fresh.withText text).program.fault ≠ none := by simp [hf]
    obtain ⟨hfault, hsame⟩ := same_program h (.inl hstop)
    exact iff_of_true (hsame.andThen_resolve hfault) (.inl (by simp))
  | none =>
    simp only [plain, Outcome.fault_andThen _ hf, Outcome.state_andThen _ hf, ne_eq, not_true,
      false_or]
    constructor
    · rintro ⟨hfault, hsame⟩
      exact idleIn_of_same h hf hfault hsame
    · intro hidle
      obtain ⟨hfault, hsame⟩ := same_program h
        (.inr fun statement hmem => idleIn_resolve.1 (hidle statement hmem))
      have hresolved := hsame.andThen_resolve hfault
      rwa [Outcome.fault_andThen _ hf, Outcome.state_andThen _ hf] at hresolved

end State

end ByteAsm
