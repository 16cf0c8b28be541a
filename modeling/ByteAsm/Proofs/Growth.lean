import ByteAsm.Proofs.Naming
import ByteAsm.Proofs.Session
import ByteAsm.Proofs.Stopping

/-! An assembly forgets nothing. Whatever is called in whatever order, and whichever of the calls fail,
the image, the code and the data do not shrink, and no label and no branch is lost. -/
namespace ByteAsm

open Source

theorem Source.Statement.eq_label_of_action {statement : Statement} {name : String}
    (h : statement.action = .ok (.define name)) : statement = .label name := by
  have hname := definition?_of_action h 0
  cases statement with
  | label other =>
    cases hname
    rfl
  | _ => cases hname

namespace State

/-- Everything that one state holds is held by another one that comes after it. -/
structure Grows (s t : State) : Prop where
  size : s.image.size ≤ t.image.size
  code : s.code ≤ t.code
  data : s.data ≤ t.data
  labels : ∀ name, name ∈ s.labels → name ∈ t.labels
  references : s.references.toList <+: t.references.toList

variable {s t u : State} {name : String}

theorem Grows.refl (s : State) : s.Grows s :=
  ⟨Nat.le_refl _, Nat.le_refl _, Nat.le_refl _, fun _ h => h, List.prefix_refl _⟩

theorem Grows.trans (h : s.Grows t) (h' : t.Grows u) : s.Grows u :=
  ⟨Nat.le_trans h.size h'.size, Nat.le_trans h.code h'.code, Nat.le_trans h.data h'.data,
    fun name hn => h'.labels name (h.labels name hn), h.references.trans h'.references⟩

theorem Grows.retext (h : s.Grows t) (text : Option (List Char)) : s.Grows { t with text := text } :=
  ⟨h.size, h.code, h.data, h.labels, h.references⟩

theorem Repatched.grows (h : s.Repatched t) : s.Grows t := by
  obtain ⟨image, hsize, rfl⟩ := h
  exact ⟨Nat.le_of_eq hsize.symm, Nat.le_refl _, Nat.le_refl _, fun _ h => h, List.prefix_refl _⟩

theorem mem_labels_perform {a : Action} :
    name ∈ (s.perform a).state.labels ↔ a = .define name ∨ name ∈ s.labels := by
  cases a with
  | define other => simp [perform_define, Std.TreeMap.mem_insert]
  | _ => simp [State.perform]

/-- No action takes anything back, also one that fails halfway. -/
theorem grows_perform (s : State) (a : Action) : s.Grows (s.perform a).state where
  size := by
    rw [size_perform]
    exact Nat.le_add_right _ _
  code := (ends_le_perform s a).1
  data := (ends_le_perform s a).2
  labels := fun _ h => mem_labels_perform.2 (.inr h)
  references := by
    rw [references_perform]
    exact List.prefix_append _ _

theorem grows_execute (s : State) (statement : Statement) : s.Grows (s.execute statement).state := by
  cases ha : statement.action with
  | error f =>
    rw [execute_of_error ha]
    exact .refl s
  | ok a =>
    rw [execute_of_ok ha]
    exact grows_perform s a

theorem grows_forEach_execute (s : State) (list : List Statement) :
    s.Grows (Outcome.forEach execute s list).state :=
  Outcome.forEach_induction (.refl s) fun t statement _ h => h.trans (grows_execute t statement)

theorem mem_labels_execute {statement : Statement}
    (h : name ∈ (s.execute statement).state.labels) : statement = .label name ∨ name ∈ s.labels := by
  cases ha : statement.action with
  | error f =>
    rw [execute_of_error ha] at h
    exact .inr h
  | ok a =>
    rw [execute_of_ok ha] at h
    rcases mem_labels_perform.1 h with rfl | h
    · exact .inl (Statement.eq_label_of_action ha)
    · exact .inr h

theorem mem_labels_forEach_execute {list : List Statement}
    (h : name ∈ (Outcome.forEach execute s list).state.labels) :
    .label name ∈ s.executed list ∨ name ∈ s.labels := by
  induction list generalizing s with
  | nil => exact .inr h
  | cons statement rest ih =>
    have hfirst := @mem_labels_execute s name statement
    rw [Outcome.forEach_cons] at h
    rw [executed, List.mem_cons]
    rcases he : s.execute statement with ⟨next, notices, _ | f⟩
    · rw [he] at h hfirst
      rcases ih h with hrest | hnext
      · exact .inl (.inr hrest)
      · exact (hfirst hnext).imp (fun h => .inl h.symm) id
    · rw [he] at h hfirst
      exact (hfirst h).imp (fun h => .inl h.symm) id

theorem repatched_andThen_resolve (o : Outcome State) :
    o.state.Repatched (o.andThen State.resolve).state := by
  rcases o with ⟨s, notices, _ | f⟩
  · exact repatched_resolve s
  · exact repatched_refl s

end State

open State

namespace Call

variable {s : State} {c : Call} {name : String}

/-- A call executes the statements that it recognises, and beyond this changes at most the targets of
branches and the text. -/
theorem exists_repatched (s : State) (c : Call) :
    ∃ list t text, c.recognised s = s.executed list ∧
      (Outcome.forEach execute s list).state.Repatched t ∧
      (c.outcome s).state = { t with text := text } := by
  cases c with
  | input text => exact ⟨[], s, text, rfl, repatched_refl s, rfl⟩
  | instruction =>
    simp only [outcome_instruction, recognised]
    cases ht : s.text with
    | none =>
      rw [step_of_text_none ht]
      exact ⟨[], s, s.text, rfl, repatched_refl s, rfl⟩
    | some text =>
      obtain ⟨left, he⟩ := step_withText s text
      rw [withText_of_text ht] at he
      rw [he]
      exact ⟨_, _, some left, rfl, repatched_refl _, rfl⟩
  | program =>
    simp only [outcome_program, recognised]
    cases ht : s.text with
    | none =>
      rw [program_of_text_none ht]
      exact ⟨[], s, s.text, rfl, repatched_refl s, rfl⟩
    | some text =>
      obtain ⟨left, he, _⟩ := program_withText s text
      rw [withText_of_text ht] at he
      rw [he]
      exact ⟨_, _, some left, rfl, repatched_refl _, rfl⟩
  | skip =>
    simp only [outcome_skip, State.skip]
    cases s.text with
    | none => exact ⟨[], s, s.text, rfl, repatched_refl s, rfl⟩
    | some text => exact ⟨[], s, _, rfl, repatched_refl s, rfl⟩
  | resolve => exact ⟨[], _, _, rfl, repatched_resolve s, rfl⟩
  | file files name output =>
    simp only [outcome_file, recognised]
    cases hs : Workspace.source files name with
    | error f =>
      rw [Workspace.assemble_of_source_error hs]
      exact ⟨[], s, s.text, rfl, repatched_refl s, rfl⟩
    | ok text =>
      rw [Workspace.assemble_of_source hs]
      obtain ⟨later, hsave⟩ := Workspace.state_save output files
        ((s.withText text).program.andThen State.resolve)
      obtain ⟨image, hsize, hpatched⟩ := repatched_andThen_resolve (s.withText text).program
      obtain ⟨left, he, _⟩ := program_withText s text
      rw [he] at hsize
      refine ⟨statements text, _, later, rfl, ⟨image, hsize, rfl⟩, hsave.trans ?_⟩
      rw [hpatched, he]
      rfl

theorem grows_outcome (s : State) (c : Call) : s.Grows (c.outcome s).state := by
  obtain ⟨list, t, text, _, hpatched, he⟩ := c.exists_repatched s
  rw [he]
  exact ((grows_forEach_execute s list).trans hpatched.grows).retext text

theorem mem_labels_outcome (h : name ∈ (c.outcome s).state.labels) :
    .label name ∈ c.recognised s ∨ name ∈ s.labels := by
  obtain ⟨list, t, text, hlist, ⟨image, _, rfl⟩, he⟩ := c.exists_repatched s
  rw [he] at h
  rw [hlist]
  exact mem_labels_forEach_execute h

def stateAfter (s : State) (calls : List Call) : State :=
  calls.foldl (fun s c => (c.outcome s).state) s

def recognisedBy (s : State) : List Call → List Statement
  | [] => []
  | c :: calls => c.recognised s ++ recognisedBy (c.outcome s).state calls

theorem grows_stateAfter (s : State) (calls : List Call) : s.Grows (stateAfter s calls) := by
  induction calls generalizing s with
  | nil => exact .refl s
  | cons c calls ih => exact (c.grows_outcome s).trans (ih (c.outcome s).state)

theorem mem_labels_stateAfter {calls : List Call} (h : name ∈ (stateAfter s calls).labels) :
    .label name ∈ recognisedBy s calls ∨ name ∈ s.labels := by
  induction calls generalizing s with
  | nil => exact .inr h
  | cons c calls ih =>
    rw [recognisedBy, List.mem_append]
    rcases ih h with hlater | hnow
    · exact .inl (.inr hlater)
    · exact (mem_labels_outcome hnow).imp .inl id

end Call

end ByteAsm
