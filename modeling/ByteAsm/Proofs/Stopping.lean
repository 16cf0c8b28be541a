import ByteAsm.Assembly.Workspace
import ByteAsm.Proofs.Resolution

/-! What can stop an assembly. Statements, branches and files have faults of their own, so that the
fault of a call tells how far it has come. A file is written only when nothing has stopped it. -/
namespace ByteAsm

open Source

/-- The faults that a statement can meet: a number or a string that cannot be read, or a byte that
cannot be placed. -/
def Fault.ofStatement : Fault → Bool
  | numeral _ | escape _ | ascii _ | image _ => true
  | _ => false

/-- The faults that a file can meet: it is not there, it is not a file, or it is not a text. -/
def Fault.ofFile : Fault → Bool
  | encoding _ | missingFile _ | directory _ => true
  | _ => false

theorem Source.Statement.action_error {statement : Statement} {f : Fault}
    (h : statement.action = .error f) : f.ofStatement = true ∧ ∀ g, f ≠ .image g := by
  cases statement with
  | data body =>
    have hbody : bodyBytes body = .error f := by
      rw [action_data] at h
      split at h
      · rename_i e he
        cases h
        exact he
      · cases h
    rcases bodyBytesWith_eq_error hbody with ⟨m, rfl⟩ | ⟨e, rfl⟩
    · exact ⟨rfl, fun _ hf => by cases hf⟩
    · exact ⟨rfl, fun _ hf => by cases hf⟩
  | instruction op operands =>
    rw [action_instruction] at h
    split at h <;> cases h
    exact ⟨rfl, fun _ hf => by cases hf⟩
  | _ => cases h

theorem Source.Statement.action_ne_image {statement : Statement} {f : Fault}
    (h : statement.action = .error f) (g : Image.Fault) : f ≠ .image g :=
  (action_error h).2 g

namespace State

variable {s : State} {f : Fault} {name : String}

theorem ofStatement_of_execute {statement : Statement} (h : (s.execute statement).fault = some f) :
    f.ofStatement = true := by
  cases ha : statement.action with
  | error e =>
    simp only [execute_of_error ha, Option.some.injEq] at h
    exact h ▸ (Statement.action_error ha).1
  | ok a =>
    rw [execute_of_ok ha] at h
    cases a with
    | emit p i =>
      obtain ⟨g, _, rfl⟩ := Option.map_eq_some_iff.1 h
      rfl
    | store p bytes =>
      obtain ⟨g, _, rfl⟩ := Option.map_eq_some_iff.1 h
      rfl
    | _ => cases h

theorem ofStatement_of_forEach_execute {list : List Statement}
    (h : (Outcome.forEach execute s list).fault = some f) : f.ofStatement = true := by
  obtain ⟨before, statement, _, _, _, hlast, _⟩ := Outcome.exists_fault_of_forEach h
  exact ofStatement_of_execute hlast

theorem ofStatement_of_program {text : List Char} (h : (s.withText text).program.fault = some f) :
    f.ofStatement = true := by
  obtain ⟨left, he, _⟩ := program_withText s text
  rw [he] at h
  exact ofStatement_of_forEach_execute h

theorem ofStatement_of_step {text : List Char} (h : (s.withText text).step.fault = some f) :
    f.ofStatement = true := by
  obtain ⟨left, he⟩ := step_withText s text
  rw [he] at h
  exact ofStatement_of_forEach_execute h

/-- A label that stops the resolving is the label of a branch, and has no address. -/
theorem undefined_of_resolve (h : s.resolve.fault = some (.undefinedLabel name)) :
    name ∉ s.resolve.state.labels ∧ ∃ r ∈ s.resolve.state.references.toList, r.label = name := by
  obtain ⟨before, r, after, hsplit, _, hr, _⟩ := Outcome.exists_fault_of_forEach h
  obtain ⟨image, _, he⟩ := repatched_forEach_patch s before
  obtain ⟨final, _, hend⟩ := repatched_resolve s
  have hmem : r ∈ s.references.toList := by
    rw [hsplit]
    exact List.mem_append_right before List.mem_cons_self
  have hlabels : (Outcome.forEach patch s before).state.labels = s.labels := by rw [he]
  rw [hend]
  cases hl : (Outcome.forEach patch s before).state.labels[r.label]? with
  | none =>
    rw [patch_of_undefined hl] at hr
    cases hr
    rw [hlabels] at hl
    exact ⟨(getElem?_eq_none_iff _ _).1 hl, r, hmem, rfl⟩
  | some addr =>
    rw [patch_of_defined hl] at hr
    obtain ⟨g, _, hg⟩ := Option.map_eq_some_iff.1 hr
    cases hg

theorem mem_labels_of_resolve (h : s.resolve.fault = none) :
    ∀ r ∈ s.references.toList, r.label ∈ s.labels := by
  intro r hr
  obtain ⟨addr, hl⟩ := labels_of_forEach_patch h r hr
  exact Std.TreeMap.mem_iff_isSome_getElem?.2 (by rw [hl]; rfl)

end State

namespace FileStore

variable {files : FileStore} {name : String} {f : Fault}

theorem ofFile_of_read (h : files.read name = .error f) : f.ofFile = true := by
  unfold read at h
  split at h
  · cases h
    rfl
  · split at h <;> cases h <;> rfl

theorem ofFile_of_write {bytes : Array UInt8} (h : files.write name bytes = .error f) :
    f.ofFile = true := by
  unfold write at h
  split at h
  · cases h
    rfl
  · split at h <;> cases h <;> rfl

end FileStore

namespace Workspace

variable {output : String} {w : Workspace} {input : String} {text : List Char}

theorem ofFile_of_source {files : FileStore} {f : Fault} (h : source files input = .error f) :
    f.ofFile = true := by
  unfold source at h
  split at h
  · rename_i e he
    cases h
    exact FileStore.ofFile_of_read he
  · split at h <;> cases h
    rfl

/-- What stops the assembling of a file: the file cannot be read, its program meets a fault, a branch
cannot be resolved, or the image cannot be written. -/
inductive Stops (output : String) (w : Workspace) (input : String) : Fault → Prop
  | source {f : Fault} (hs : source w.files input = .error f) : Stops output w input f
  | program {f : Fault} {text : List Char} (hs : Workspace.source w.files input = .ok text)
      (hp : (w.state.withText text).program.fault = some f) : Stops output w input f
  | resolve {f : Fault} {text : List Char} (hs : Workspace.source w.files input = .ok text)
      (hp : (w.state.withText text).program.fault = none)
      (hr : (w.state.withText text).program.state.resolve.fault = some f) : Stops output w input f
  | write {f : Fault} {text : List Char} (hs : Workspace.source w.files input = .ok text)
      (hp : (w.state.withText text).program.fault = none)
      (hr : (w.state.withText text).program.state.resolve.fault = none)
      (hw : w.files.write output (w.state.withText text).program.state.resolve.state.image =
        .error f) : Stops output w input f

/-- Something stops a file, and no file changes; or its program and all branches are in order, and the
image is written. -/
theorem assemble_cases (output : String) (w : Workspace) (input : String) :
    (∃ f, Stops output w input f ∧ (assemble output w input).fault = some f ∧
      (assemble output w input).state.files = w.files) ∨
    ∃ text, source w.files input = .ok text ∧ (w.state.withText text).program.fault = none ∧
      (w.state.withText text).program.state.resolve.fault = none ∧
      (assemble output w input).fault = none ∧
      w.files.write output (assemble output w input).state.state.image =
        .ok (assemble output w input).state.files := by
  cases hs : source w.files input with
  | error f =>
    rw [assemble_of_source_error hs]
    exact .inl ⟨f, .source hs, rfl, rfl⟩
  | ok text =>
    rw [assemble_of_source hs]
    rcases hp : (w.state.withText text).program with ⟨s, notices, _ | f⟩
    · rcases hr : s.resolve with ⟨t, more, _ | f⟩
      · cases hw : w.files.write output t.image with
        | error f =>
          refine .inl ⟨f, .write hs (by rw [hp]) (by rw [hp, hr]) (by rw [hp, hr]; exact hw), ?_⟩
          simp only [Outcome.andThen, hr, Outcome.after, save, hw]
          exact ⟨trivial, trivial⟩
        | ok files =>
          refine .inr ⟨text, rfl, by rw [hp], by rw [hp, hr], ?_⟩
          simp only [Outcome.andThen, hr, Outcome.after, save, hw]
          exact ⟨trivial, trivial⟩
      · refine .inl ⟨f, .resolve hs (by rw [hp]) (by rw [hp, hr]), ?_⟩
        simp only [Outcome.andThen, hr, Outcome.after, save]
        exact ⟨trivial, trivial⟩
    · exact .inl ⟨f, .program hs (by rw [hp]), rfl, rfl⟩

theorem stops_of_fault {f : Fault} (h : (assemble output w input).fault = some f) :
    Stops output w input f := by
  rcases assemble_cases output w input with ⟨g, hstops, hg, _⟩ | ⟨_, _, _, _, hnone, _⟩
  · rw [hg] at h
    cases h
    exact hstops
  · rw [hnone] at h
    cases h

theorem fault_save_of_fault {files : FileStore} {o : Outcome State} {f : Fault}
    (h : o.fault = some f) : (save output files o).fault = some f := by
  rcases o with ⟨s, notices, _ | e⟩
  · cases h
  · exact h

theorem Stops.fault {f : Fault} (h : Stops output w input f) :
    (assemble output w input).fault = some f := by
  cases h with
  | source hs => rw [assemble_of_source_error hs]
  | program hs hp =>
    rw [assemble_of_source hs, Outcome.andThen_of_fault _ hp]
    exact fault_save_of_fault hp
  | resolve hs hp hr =>
    rw [← Outcome.fault_andThen _ hp] at hr
    rw [assemble_of_source hs]
    exact fault_save_of_fault hr
  | @write text hs hp hr hw =>
    rw [← Outcome.fault_andThen _ hp] at hr
    rw [← Outcome.state_andThen _ hp] at hw
    rw [assemble_of_source hs]
    rcases ho : (w.state.withText text).program.andThen State.resolve with ⟨s, notices, fault⟩
    rw [ho] at hr hw
    cases hr
    simp only [save, hw]

theorem files_of_fault {f : Fault} (h : (assemble output w input).fault = some f) :
    (assemble output w input).state.files = w.files := by
  rcases assemble_cases output w input with ⟨_, _, _, hfiles⟩ | ⟨_, _, _, _, hnone, _⟩
  · exact hfiles
  · rw [hnone] at h
    cases h

theorem write_of_fault_none (h : (assemble output w input).fault = none) :
    w.files.write output (assemble output w input).state.state.image =
      .ok (assemble output w input).state.files := by
  rcases assemble_cases output w input with ⟨_, _, hsome, _⟩ | ⟨_, _, _, _, _, hwrite⟩
  · rw [hsome] at h
    cases h
  · exact hwrite

theorem exists_source (hf : (assemble output w input).fault = none) :
    ∃ text, source w.files input = .ok text ∧ (w.state.withText text).program.fault = none ∧
      (w.state.withText text).program.state.resolve.fault = none := by
  rcases assemble_cases output w input with ⟨f, _, hsome, _⟩ | ⟨text, hs, hp, hr, _⟩
  · rw [hsome] at hf
    cases hf
  · exact ⟨text, hs, hp, hr⟩

end Workspace

end ByteAsm
