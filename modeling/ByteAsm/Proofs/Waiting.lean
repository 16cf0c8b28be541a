import ByteAsm.Proofs.FileSequence
import ByteAsm.Proofs.Growth

/-! Branches wait for their labels. A branch that has been met stays among the references, so that
branches cannot be resolved before its label is defined, however much is called in between. -/
namespace ByteAsm

open Source State

namespace Call

variable {s : State} {c d : Call} {name : String}

def resolves : Call → Bool
  | resolve | file .. => true
  | _ => false

/-- When a call stops at a label without a definition, the branch to it is still waiting afterwards. -/
theorem waiting_of_fault (h : (c.outcome s).fault = some (.undefinedLabel name)) :
    name ∉ (c.outcome s).state.labels ∧
      ∃ r ∈ (c.outcome s).state.references.toList, r.label = name := by
  cases c with
  | input text => cases h
  | instruction =>
    cases ht : s.text with
    | none => simp [step_of_text_none ht] at h
    | some text =>
      rw [outcome_instruction, ← withText_of_text ht] at h
      cases ofStatement_of_step h
  | program =>
    cases ht : s.text with
    | none => simp [program_of_text_none ht] at h
    | some text =>
      rw [outcome_program, ← withText_of_text ht] at h
      cases ofStatement_of_program h
  | skip =>
    simp only [outcome_skip, State.skip] at h
    split at h <;> cases h
  | resolve => exact undefined_of_resolve h
  | file files input output =>
    simp only [outcome_file] at h ⊢
    cases Workspace.stops_of_fault h with
    | source hs => cases Workspace.ofFile_of_source hs
    | program hs hp => cases ofStatement_of_program hp
    | write hs hp hr hw => cases FileStore.ofFile_of_write hw
    | @resolve text hs hp hr =>
      obtain ⟨left, he⟩ := Workspace.state_save output files
        ((s.withText text).program.andThen State.resolve)
      rw [Workspace.assemble_of_source hs, he, Outcome.state_andThen _ hp]
      exact undefined_of_resolve hr

theorem mem_labels_of_resolves (hd : d.resolves = true) (hf : (d.outcome s).fault = none) :
    ∀ r ∈ s.references.toList, r.label ∈ (d.outcome s).state.labels := by
  cases d with
  | resolve =>
    intro r hr
    exact (grows_outcome s .resolve).labels _ (mem_labels_of_resolve hf r hr)
  | file files input output =>
    intro r hr
    simp only [outcome_file] at hf ⊢
    obtain ⟨text, hs, hp, hresolve⟩ := Workspace.exists_source hf
    obtain ⟨left, he⟩ := Workspace.state_save output files
      ((s.withText text).program.andThen State.resolve)
    have hgrows := grows_outcome (s.withText text) .program
    have hfound := mem_labels_of_resolve hresolve r (hgrows.references.subset hr)
    rw [Workspace.assemble_of_source hs, he, Outcome.state_andThen _ hp]
    exact (repatched_resolve _).grows.labels _ hfound
  | _ => cases hd

/-- Calls take nothing back, whichever of them fail: the image, the code and the data do not shrink,
no label is lost, and the references only get more. So when a call has stopped at a label without a
definition, no later call resolves the branches before a definition of this label has been recognised,
if not in this very call. -/
theorem nothing_forgotten (s : State) :
    (∀ calls, s.Grows (stateAfter s calls)) ∧
    ∀ (c : Call) (between : List Call) (d : Call) (name : String),
      (c.outcome s).fault = some (.undefinedLabel name) → d.resolves = true →
      (d.outcome (stateAfter s (c :: between))).fault = none →
      .label name ∈ recognisedBy (c.outcome s).state (between ++ [d]) := by
  refine ⟨grows_stateAfter s, ?_⟩
  intro c between d name hc hd hf
  obtain ⟨hmissing, r, hr, rfl⟩ := waiting_of_fault hc
  have hkept := (grows_stateAfter (c.outcome s).state between).references.subset hr
  have hfound := mem_labels_of_resolves hd hf r hkept
  have hend : (d.outcome (stateAfter s (c :: between))).state =
      stateAfter (c.outcome s).state (between ++ [d]) := by
    simp only [stateAfter, List.foldl_cons, List.foldl_append, List.foldl_nil]
  rw [hend] at hfound
  exact (mem_labels_stateAfter hfound).resolve_right hmissing

/-- The label of a branch is defined in a file that is assembled after a failed attempt to resolve, and
after a call that fails for want of a text. -/
theorem nothing_forgotten_late_label :
    let s := stateAfter fresh [.input (some "JMP L".toList), .program]
    let d := Call.file (Workspace.twoSources "JMP L" "L:HLT") "b" "o"
    (Call.resolve.outcome s).fault = some (.undefinedLabel "L") ∧
      (Call.instruction.outcome (stateAfter s [.resolve, .input none])).fault = some .noText ∧
      (d.outcome (stateAfter s [.resolve, .input none, .instruction])).fault = none ∧
      s.Grows (stateAfter s [.resolve, .input none, .instruction, d]) ∧
      .label "L" ∈ recognisedBy (Call.resolve.outcome s).state [.input none, .instruction, d] := by
  intro s d
  -- both for any state, so that the concrete ones are not unfolded
  have hstart : ∀ (s : State) (text : List Char),
      stateAfter s [.input (some text), .program] = (s.withText text).program.state := fun _ _ => rfl
  have hstuck : ∀ s : State, Call.instruction.outcome (stateAfter s [.resolve, .input none]) =
      ⟨{ s.resolve.state with text := none }, [], some .noText⟩ :=
    fun s => step_of_text_none (s := { s.resolve.state with text := none }) rfl
  have hs : s.Follows [.emit .add (.branch .jmp "L")] := by
    rw [show s = _ from hstart fresh "JMP L".toList]
    exact follows_fresh.program Workspace.actions_jump
      (follows_fresh.fault_program Workspace.actions_jump ⟨by decide, by decide⟩)
  have hundefined : (Call.resolve.outcome s).fault = some (.undefinedLabel "L") := hs.fault_resolve
  have hdecode : Text.Utf8.decode ("JMP L".toList.flatMap String.utf8EncodeChar) =
      .ok "JMP L".toList := by cbv
  have hdone : (d.outcome (stateAfter s [.resolve, .input none, .instruction])).fault = none := by
    have hlast : stateAfter s [.resolve, .input none, .instruction] =
        { s.resolve.state with text := none } := congrArg Outcome.state (hstuck s)
    rw [hlast]
    exact (Workspace.assemble_of_actions (w := ⟨_, Workspace.twoSources "JMP L" "L:HLT"⟩)
      (hs.resolve.retext none) (Workspace.writable_twoSources "JMP L" "L:HLT")
      (Workspace.source_twoSources hdecode Workspace.decode_halt).2 Workspace.actions_halt
      ⟨by decide, by decide⟩ rfl).1
  obtain ⟨hgrows, hdefined⟩ := nothing_forgotten s
  exact ⟨hundefined, by rw [hstuck s], hdone, hgrows _,
    hdefined .resolve [.input none, .instruction] d "L" hundefined rfl hdone⟩

end Call

end ByteAsm
