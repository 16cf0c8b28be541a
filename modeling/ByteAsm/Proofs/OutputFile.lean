import ByteAsm.CommandLine.Report
import ByteAsm.Proofs.FileSequence

/-! What a run leaves on disk. The image is written after each input, as a whole and only when nothing
has stopped the input, so the output always holds the image of the last input that was assembled. No
other file changes, and a run that stops has read no input behind the one that has stopped it. -/
namespace ByteAsm

namespace FileStore

variable {files other after : FileStore} {paths : List Path} {name : String} {bytes : Array UInt8}

theorem read_of_write {second : String} (h : files.write name bytes = .ok after) (hname : second ≠ "")
    (hpath : path second = path name) : after.read second = .ok bytes := by
  rw [read, if_neg hname, hpath, write_eq_ok h, get?_insert_self (ne_of_write h).2]

def Agree (paths : List Path) (files other : FileStore) : Prop :=
  ∀ p ∈ paths, other.get? p = files.get? p

theorem Agree.read (h : Agree paths files other) (hp : path name ∈ paths) :
    other.read name = files.read name := by
  rw [FileStore.read, h _ hp]
  rfl

theorem Agree.insert (h : Agree paths files other) (p : Path) (entry : Entry) :
    Agree paths (files.insert p entry) (other.insert p entry) := by
  intro q hq
  by_cases he : q = p
  · subst he
    cases q with
    | nil => rfl
    | cons step steps => rw [get?_insert_self (by simp), get?_insert_self (by simp)]
  · rw [get?_insert_of_ne he, get?_insert_of_ne he, h q hq]

theorem Agree.write (h : Agree paths files other) (hp : path name ∈ paths)
    (hfolder : (path name).dropLast ∈ paths) (bytes : Array UInt8) :
    (∃ f, files.write name bytes = .error f ∧ other.write name bytes = .error f) ∨
      ∃ left right, files.write name bytes = .ok left ∧ other.write name bytes = .ok right ∧
        Agree paths left right := by
  unfold FileStore.write
  rw [h _ hp, h _ hfolder]
  split
  · exact .inl ⟨_, rfl, rfl⟩
  · split
    · exact .inl ⟨_, rfl, rfl⟩
    · exact .inr ⟨_, _, rfl, rfl, h.insert _ _⟩
    · exact .inr ⟨_, _, rfl, rfl, h.insert _ _⟩
    · exact .inl ⟨_, rfl, rfl⟩

end FileStore

namespace Workspace

variable {output input : String} {inputs : List String} {w : Workspace} {files other : FileStore}
  {paths : List FileStore.Path} {s : State}

/-- Two outcomes that differ at most in the files that are not among some paths. -/
structure Alike (paths : List FileStore.Path) (o p : Outcome Workspace) : Prop where
  state : p.state.state = o.state.state
  notices : p.notices = o.notices
  fault : p.fault = o.fault
  files : FileStore.Agree paths o.state.files p.state.files

/-- Of all files, assembling looks at the input, at the output and at the folder of the output only. -/
theorem alike_assemble (h : FileStore.Agree paths files other)
    (houtput : FileStore.path output ∈ paths) (hfolder : (FileStore.path output).dropLast ∈ paths)
    (hinput : FileStore.path input ∈ paths) :
    Alike paths (assemble output ⟨s, files⟩ input) (assemble output ⟨s, other⟩ input) := by
  have hsource : source other input = source files input := by
    rw [source, h.read hinput]
    rfl
  cases hs : source files input with
  | error f =>
    rw [assemble_of_source_error hs, assemble_of_source_error (hsource.trans hs)]
    exact ⟨rfl, rfl, rfl, h⟩
  | ok text =>
    rw [assemble_of_source hs, assemble_of_source (hsource.trans hs)]
    rcases (s.withText text).program.andThen State.resolve with ⟨t, notices, _ | f⟩
    · rcases h.write houtput hfolder t.image with ⟨f, hw, hw'⟩ | ⟨left, right, hw, hw', hagree⟩
      · simp only [save, hw, hw']
        exact ⟨rfl, rfl, rfl, h⟩
      · simp only [save, hw, hw']
        exact ⟨rfl, rfl, rfl, hagree⟩
    · exact ⟨rfl, rfl, rfl, h⟩

theorem alike_assembleAll (h : FileStore.Agree paths files other)
    (houtput : FileStore.path output ∈ paths) (hfolder : (FileStore.path output).dropLast ∈ paths)
    (hinputs : ∀ input ∈ inputs, FileStore.path input ∈ paths) :
    Alike paths (assembleAll output ⟨s, files⟩ inputs) (assembleAll output ⟨s, other⟩ inputs) := by
  induction inputs generalizing s files other with
  | nil => exact ⟨rfl, rfl, rfl, h⟩
  | cons input inputs ih =>
    have hfirst := alike_assemble (s := s) h houtput hfolder (hinputs input List.mem_cons_self)
    rw [assembleAll, assembleAll, Outcome.forEach_cons, Outcome.forEach_cons]
    rcases ho : assemble output ⟨s, files⟩ input with ⟨⟨t, left⟩, notices, fault⟩
    rcases hp : assemble output ⟨s, other⟩ input with ⟨⟨t', right⟩, notices', fault'⟩
    rw [ho, hp] at hfirst
    obtain ⟨rfl, rfl, rfl, hagree⟩ := hfirst
    cases fault' with
    | some f => exact ⟨rfl, rfl, rfl, hagree⟩
    | none =>
      have hrest := ih (s := t') hagree fun input hi => hinputs input (List.mem_cons_of_mem _ hi)
      exact ⟨hrest.state, congrArg (notices' ++ ·) hrest.notices, hrest.fault, hrest.files⟩

theorem write_assembleAll (hne : inputs ≠ []) (hf : (assembleAll output w inputs).fault = none) :
    ∃ before : FileStore, before.write output (assembleAll output w inputs).state.state.image =
      .ok (assembleAll output w inputs).state.files := by
  obtain ⟨before, input, rfl⟩ := (List.eq_nil_or_concat inputs).resolve_left hne
  rw [List.concat_eq_append, assembleAll, Outcome.forEach_append] at hf ⊢
  obtain ⟨hbefore, hlast⟩ := Outcome.fault_andThen_eq_none_iff.1 hf
  rw [Outcome.forEach_singleton] at hlast
  rw [Outcome.state_andThen _ hbefore, Outcome.forEach_singleton]
  exact ⟨_, write_of_fault_none hlast⟩

theorem read_assembleAll (hne : inputs ≠ []) (hf : (assembleAll output w inputs).fault = none) :
    (assembleAll output w inputs).state.files.read output =
      .ok (assembleAll output w inputs).state.state.image := by
  obtain ⟨before, hwrite⟩ := write_assembleAll hne hf
  exact FileStore.read_of_write hwrite (FileStore.ne_of_write hwrite).1 rfl

theorem get?_assembleAll_of_ne {p : FileStore.Path} (hne : p ≠ FileStore.path output) :
    (assembleAll output w inputs).state.files.get? p = w.files.get? p := by
  apply Outcome.forEach_induction (P := fun v : Workspace => v.files.get? p = w.files.get? p) rfl
  intro v input _ hv
  rcases files_assemble output v input with he | ⟨image, he⟩
  · rw [he, hv]
  · rw [he, FileStore.get?_insert_of_ne hne, hv]

theorem assembleAll_append_of_fault {f : Fault} (h : (assembleAll output w inputs).fault = some f)
    (rest : List String) : assembleAll output w (inputs ++ rest) = assembleAll output w inputs := by
  rw [assembleAll, Outcome.forEach_append]
  exact Outcome.andThen_of_fault _ h

/-- The paths that assembling some inputs looks at: those of the inputs, of the output and of its
folder. -/
def inspected (output : String) (inputs : List String) : List FileStore.Path :=
  FileStore.path output :: (FileStore.path output).dropLast :: inputs.map FileStore.path

theorem alike_append_of_fault {f : Fault} (h : FileStore.Agree (inspected output inputs) files other)
    (hf : (assembleAll output ⟨s, files⟩ inputs).fault = some f) (rest : List String) :
    Alike (inspected output inputs) (assembleAll output ⟨s, files⟩ (inputs ++ rest))
      (assembleAll output ⟨s, other⟩ (inputs ++ rest)) := by
  have hinputs : ∀ input ∈ inputs, FileStore.path input ∈ inspected output inputs := by
    intro input hinput
    exact List.mem_cons_of_mem _ (List.mem_cons_of_mem _ (List.mem_map_of_mem hinput))
  have halike := alike_assembleAll (s := s) h List.mem_cons_self
    (List.mem_cons_of_mem _ List.mem_cons_self) hinputs
  rwa [assembleAll_append_of_fault hf, assembleAll_append_of_fault (halike.fault.trans hf)]

/-- The fault of some inputs is that of the first one that is stopped, which leaves the files as the
inputs before it have left them. -/
theorem exists_stops {f : Fault} (h : (assembleAll output w inputs).fault = some f) :
    ∃ before input rest, inputs = before ++ [input] ++ rest ∧
      (assembleAll output w before).fault = none ∧
      Stops output (assembleAll output w before).state input f ∧
      (assembleAll output w (before ++ [input])).fault = some f ∧
      (assembleAll output w (before ++ [input])).state.files =
        (assembleAll output w before).state.files := by
  obtain ⟨before, input, rest, hsplit, hbefore, hlast, _⟩ := Outcome.exists_fault_of_forEach h
  refine ⟨before, input, rest, by simpa using hsplit, hbefore, stops_of_fault hlast, ?_⟩
  rw [assembleAll, Outcome.forEach_concat input hbefore]
  exact ⟨hlast, files_of_fault hlast⟩

end Workspace

namespace CommandLine

open FileStore Workspace

/-- A run that assembles either ends well, with the image of all inputs in the output; or it stops at
the first input that something stops, with the image of the inputs before it in the output, which it
has not touched if there are none. The inputs behind are not read then: whatever they hold, it is the
same run. No other file changes in either case, and an input that is the output is read as the last
image that was written. -/
theorem output_complete_or_kept (args : List String) (files : FileStore) (inputs : List String)
    (output : String) (h : Request.ofArguments args = .assemble inputs output) :
    let after := assembleAll output ⟨.fresh, files⟩
    let report := run args files
    ((after inputs).fault = none ∧ report.exitCode = 0 ∧ report.fault = none ∧
        (inputs ≠ [] → report.files.read output = .ok (after inputs).state.state.image) ∨
      ∃ before input rest f, inputs = before ++ input :: rest ∧ (after before).fault = none ∧
        Stops output (after before).state input f ∧ report.exitCode = 1 ∧ report.fault = some f ∧
        (before = [] → report.files = files) ∧
        (before ≠ [] → report.files.read output = .ok (after before).state.state.image) ∧
        ∀ other : FileStore, Agree (inspected output (before ++ [input])) files other →
          (run args other).exitCode = 1 ∧ (run args other).fault = some f ∧
          (run args other).stdout = report.stdout ∧ (run args other).stderr = report.stderr ∧
          (run args other).files.get? (path output) = report.files.get? (path output)) ∧
    (∀ p ≠ path output, report.files.get? p = files.get? p) ∧
    (inputs = [] → report.files = files) ∧
    ∀ before input rest, inputs = before ++ input :: rest → before ≠ [] →
      (after before).fault = none → input ≠ "" → path input = path output →
      (after before).state.files.read input = .ok (after before).state.state.image := by
  intro after report
  have hrun : ∀ files, run args files = (Request.assemble inputs output).fulfil files := by
    intro files
    rw [run, h]
  have hfiles : report.files = (after inputs).state.files := by
    rw [show report = _ from hrun files]
    rfl
  refine ⟨?_, ?_, ?_, ?_⟩
  · cases hf : (assembleAll output ⟨.fresh, files⟩ inputs).fault with
    | none =>
      refine .inl ⟨rfl, ?_, ?_, ?_⟩
      · simp only [report, hrun, Request.fulfil, hf]
        rfl
      · simp only [report, hrun, Request.fulfil, hf]
      · intro hne
        rw [hfiles]
        exact read_assembleAll hne hf
    | some f =>
      obtain ⟨before, input, rest, rfl, hbefore, hstops, hlast, hkept⟩ := exists_stops hf
      rw [show after (before ++ [input] ++ rest) = _ from assembleAll_append_of_fault hlast rest,
        hkept] at hfiles
      refine .inr ⟨before, input, rest, f, by simp, hbefore, hstops, ?_, ?_, ?_, ?_, ?_⟩
      · simp only [report, hrun, Request.fulfil, hf]
        rfl
      · simp only [report, hrun, Request.fulfil, hf]
      · rintro rfl
        exact hfiles
      · intro hne
        rw [hfiles]
        exact read_assembleAll hne hbefore
      · intro other hagree
        have halike := alike_append_of_fault (s := .fresh) hagree hlast rest
        have hfault := halike.fault.trans hf
        simp only [report, hrun, Request.fulfil, hfault, halike.notices]
        exact ⟨rfl, trivial, trivial, trivial, halike.files _ List.mem_cons_self⟩
  · intro p hp
    rw [hfiles]
    exact get?_assembleAll_of_ne hp
  · rintro rfl
    exact hfiles
  · intro before input rest _ hne hf hname hpath
    obtain ⟨earlier, hwrite⟩ := write_assembleAll hne hf
    exact read_of_write hwrite hname hpath

/-- The second of three inputs is missing. The output holds the image of the first, and it does not
matter what the third is. -/
theorem output_complete_or_kept_missing_input :
    let files := twoSources "L:HLT" "JMP L"
    let args := ["-o", "o", "a", "c", "b"]
    Request.ofArguments args = .assemble ["a", "c", "b"] "o" ∧
      (run args files).exitCode = 1 ∧ (run args files).fault = some (.missingFile "c") ∧
      (run args files).files.read "o" =
        .ok (assembleAll "o" ⟨.fresh, files⟩ ["a"]).state.state.image ∧
      (run args files).files.get? ["b"] = files.get? ["b"] ∧
      (run args (twoSources "L:HLT" "?")).fault = some (.missingFile "c") := by
  intro files args
  have hargs : Request.ofArguments args = .assemble ["a", "c", "b"] "o" := by cbv
  have hpath : path "c" = ["c"] := by cbv
  have hdecode : Text.Utf8.decode ("JMP L".toList.flatMap String.utf8EncodeChar) =
      .ok "JMP L".toList := by cbv
  have hone : assembleAll "o" ⟨.fresh, files⟩ ["a"] = assemble "o" ⟨.fresh, files⟩ "a" :=
    Outcome.forEach_singleton ..
  have hfirst : (assembleAll "o" ⟨.fresh, files⟩ ["a"]).fault = none := by
    rw [hone]
    exact (assemble_of_actions (w := ⟨_, files⟩) State.follows_fresh
      (writable_twoSources "L:HLT" "JMP L") (source_twoSources decode_halt hdecode).1 actions_halt
      ⟨by decide, by decide⟩ rfl).1
  have hmissing : source (assembleAll "o" ⟨.fresh, files⟩ ["a"]).state.files "c" =
      .error (.missingFile "c") := by
    have hnone : files.get? (path "c") = none := by
      rw [hpath]
      exact (get?_insert_of_ne (by decide)).trans (get?_insert_of_ne (by decide))
    rw [hone, source_assemble (by rw [hpath, path_o]; decide), source,
      FileStore.read, if_neg (by decide), hnone]
  have hsecond : (assembleAll "o" ⟨.fresh, files⟩ ["a", "c"]).fault = some (.missingFile "c") :=
    (congrArg Outcome.fault (Outcome.forEach_concat "c" hfirst)).trans (Stops.source hmissing).fault
  have hagree : Agree (inspected "o" ["a", "c"]) files (twoSources "L:HLT" "?") := by
    intro p hp
    have hne : p ≠ ["b"] := by
      rintro rfl
      simp [inspected, path_o, path_a, hpath] at hp
    exact (get?_insert_of_ne hne).trans (get?_insert_of_ne hne).symm
  obtain ⟨hend, hkept, _, _⟩ := output_complete_or_kept args files _ _ hargs
  rcases hend with ⟨hf, _⟩ |
    ⟨before, input, rest, f, hsplit, hbefore, hstops, hexit, hfault, _, hread, hother⟩
  · rw [show assembleAll "o" ⟨.fresh, files⟩ ["a", "c", "b"] = _ from
      assembleAll_append_of_fault hsecond ["b"], hsecond] at hf
    cases hf
  · rcases before with _ | ⟨x, _ | ⟨y, before⟩⟩
    · cases hsplit
      have hnone : (assembleAll "o" ⟨.fresh, files⟩ ["a"]).fault = some f := hone ▸ hstops.fault
      rw [hfirst] at hnone
      cases hnone
    · cases hsplit
      have he := (Stops.source hmissing).fault.symm.trans hstops.fault
      cases he
      obtain ⟨_, hsame, _⟩ := hother _ hagree
      exact ⟨hargs, hexit, hfault, hread (by simp), hkept _ (by rw [path_o]; decide), hsame⟩
    · simp only [List.cons_append, List.cons.injEq] at hsplit
      obtain ⟨rfl, rfl, _⟩ := hsplit
      rw [show assembleAll "o" ⟨.fresh, files⟩ ("a" :: "c" :: before) = _ from
        assembleAll_append_of_fault hsecond before, hsecond] at hbefore
      cases hbefore

end CommandLine

end ByteAsm
