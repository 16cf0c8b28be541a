import ByteAsm.Proofs.Naming
import ByteAsm.Proofs.Repatching
import ByteAsm.Proofs.Stopping
import Mathlib

/-! Several files in one image. Each file is assembled behind those before it, and all branches are
resolved again after each. The labels are shared by all files, so that a file can branch to a label
of one before it, and a label that a later file defines again takes all branches with it. -/
namespace ByteAsm

open Source State

theorem Layout.le_offset {as : List Action} {addr : Nat} {r : Reference}
    (hr : r ∈ (located addr as).filterMap reference?) : addr ≤ r.offset := by
  induction as generalizing addr with
  | nil => simp [located] at hr
  | cons a as ih =>
    rw [located, List.filterMap_cons] at hr
    cases ha : reference? (addr, a) with
    | none =>
      rw [ha] at hr
      exact Nat.le_trans (Nat.le_add_right _ _) (ih hr)
    | some q =>
      rw [ha] at hr
      rcases List.mem_cons.1 hr with rfl | hr
      · exact Nat.le_of_eq (offset_of_reference? ha).1.symm
      · exact Nat.le_trans (Nat.le_add_right _ _) (ih hr)

namespace State

variable {s t : State} {as bs : List Action} {text : List Char} {done : List (List Char)}

theorem resolved_fresh : fresh.Resolved := by simp [Resolved, fresh]

theorem Resolved.retext (h : s.Resolved) (text : Option (List Char)) :
    Resolved { s with text := text } := h

theorem Follows.defined (h : s.Follows as) (hp : s.Resolved) :
    ∀ r ∈ Layout.references as, Layout.address? as r.label ≠ none := by
  intro r hr
  obtain ⟨addr, hl, _⟩ := hp r (by rw [h.records.references]; exact hr)
  rw [← h.records.labels, hl]
  exact Option.some_ne_none addr

/-- Behind texts whose branches are all resolved, resolving stops at the first branch of the next text
whose label is defined neither there nor before. -/
theorem Follows.fault_resolve_program (h : s.Follows as) (hp : s.Resolved)
    (has : HasActions (done.flatMap statements) as)
    (hf : (s.withText text).program.fault = none) :
    (s.withText text).program.state.resolve.fault =
      (undefinedName? done text).map .undefinedLabel := by
  obtain ⟨bs, hbs⟩ := actions_of_program hf
  have hall : HasActions ((done ++ [text]).flatMap statements) (as ++ bs) := by
    rw [List.flatMap_append, List.flatMap_singleton]
    exact List.rel_append has hbs
  have hnone : ∀ r : Reference, (Layout.address? (as ++ bs) r.label).isNone =
      decide (r.label ∉ (done ++ [text]).flatMap definedNames) := by
    intro r
    rw [Bool.eq_iff_iff, Option.isNone_iff_eq_none, Layout.address?_eq_none_iff hall,
      decide_eq_true_iff]
  -- the references of the earlier texts are behind us: their labels are defined already
  have hbefore : (Layout.references as).find?
      (fun r => decide (r.label ∉ (done ++ [text]).flatMap definedNames)) = none := by
    rw [List.find?_eq_none]
    intro r hr
    have hdef := mt (Layout.address?_eq_none_iff has).2 (h.defined hp r hr)
    rw [not_not] at hdef
    simp only [List.flatMap_append, List.mem_append, hdef, true_or, not_true_eq_false,
      decide_false, Bool.false_eq_true, not_false_eq_true]
  rw [(h.program hbs hf).fault_resolve, Layout.undefined?, Layout.references_append,
    List.find?_append]
  simp only [hnone]
  rw [hbefore, Option.none_or, undefinedName?, branchNames,
    ← Layout.map_located (fun _ _ addr h => Statement.reference?_of_action h addr) hbs,
    List.find?_map, Option.map_map]
  rfl

/-- The code of a state is kept by later texts, up to the targets of branches whose labels they
define again. -/
theorem Follows.kept (h : s.Follows as) (hp : s.Resolved) (ht : t.Follows (as ++ bs))
    (htp : t.Resolved) (hcode : t.code ≤ 0x8000) {texts : List (List Char)}
    (hbs : HasActions (texts.flatMap statements) bs) {i : Nat} (hi : i < s.code) :
    t.image[i]? = s.image[i]? ∨ ∃ r ∈ s.references.toList, r.Covers i ∧
      r.label ∈ texts.flatMap definedNames := by
  have hrefs : t.references.toList = s.references.toList ++
      (Layout.located (Layout.draft as).length bs).filterMap Layout.reference? := by
    rw [ht.records.references, h.records.references, Layout.references_append]
  by_cases hcover : ∃ r ∈ s.references.toList, r.Covers i
  · obtain ⟨r, hr, hri⟩ := hcover
    by_cases hname : r.label ∈ texts.flatMap definedNames
    · exact .inr ⟨r, hr, hri, hname⟩
    · left
      obtain ⟨addr, hl, hhigh, hlow⟩ := hp r hr
      obtain ⟨addr', hl', hhigh', hlow'⟩ := htp r (by rw [hrefs]; exact List.mem_append_left _ hr)
      have hsame : addr' = addr := by
        rw [ht.records.labels, Layout.address?_append hbs hname, ← h.records.labels, hl] at hl'
        exact (Option.some.inj hl').symm
      subst hsame
      rcases hri with rfl | rfl
      · rw [hhigh, hhigh']
      · rw [hlow, hlow']
  · left
    have hend := h.records.code
    have htend := ht.records.code
    rw [Layout.draft_append, List.length_append] at htend
    obtain ⟨hf, halike⟩ := h.alike (by omega)
    obtain ⟨htf, htalike⟩ := ht.alike hcode
    have hout : ∀ r ∈ t.references.toList, ¬ r.Covers i := by
      intro r hr hri
      rw [hrefs] at hr
      rcases List.mem_append.1 hr with hr | hr
      · exact hcover ⟨r, hr, hri⟩
      · have hge := Layout.le_offset hr
        simp only [Reference.Covers] at hri
        omega
    have hbyte := (shows_fresh.forEach hf).code_byte i (by rw [halike.code]; exact hi)
      (.inl (by omega))
    have htbyte := (shows_fresh.forEach htf).code_byte i (by rw [htalike.code]; omega)
      (.inl (by omega))
    rw [← htalike.byte i hout, ← halike.byte i fun r hr hri => hcover ⟨r, hr, hri⟩, hbyte, htbyte,
      List.nil_append, List.nil_append, Layout.draft_append, List.getElem?_append_left (by omega)]

end State

namespace FileStore

variable {files after : FileStore} {name : String} {bytes : Array UInt8}

def Writable (files : FileStore) (name : String) : Prop :=
  ∃ after, files.write name #[] = .ok after

theorem write_eq_ok (h : files.write name bytes = .ok after) :
    after = files.insert (path name) (.file bytes) := by
  unfold write at h
  split at h
  · cases h
  · split at h <;> cases h <;> rfl

theorem ne_of_write (h : files.write name bytes = .ok after) : name ≠ "" ∧ path name ≠ [] := by
  unfold write at h
  split at h
  · cases h
  · refine ⟨‹_›, ?_⟩
    intro hnil
    rw [hnil] at h
    cases h

theorem Writable.write (h : files.Writable name) (bytes : Array UInt8) :
    files.write name bytes = .ok (files.insert (path name) (.file bytes)) := by
  obtain ⟨after, h⟩ := h
  unfold FileStore.write at h ⊢
  split at h
  · cases h
  · rw [if_neg ‹_›]
    split at h <;> cases h <;> simp only [*]

theorem Writable.insert (h : files.Writable name) (bytes : Array UInt8) :
    (files.insert (path name) (.file bytes)).Writable name := by
  obtain ⟨after, h⟩ := h
  obtain ⟨hname, hpath⟩ := ne_of_write h
  exact ⟨_, by rw [FileStore.write, if_neg hname, get?_insert_self hpath]⟩

end FileStore

namespace Workspace

variable {w : Workspace} {output input : String} {inputs : List String} {text : List Char}
  {as bs : List Action}

/-- The texts that are read while files are assembled one after the other, up to a fault. The image
may be written to a file that is read later. -/
def texts (output : String) : Workspace → List String → List (List Char)
  | _, [] => []
  | w, input :: inputs =>
    match source w.files input with
    | .error _ => []
    | .ok text => text :: texts output (assemble output w input).state inputs

theorem follows_assemble (h : w.state.Follows as) (hsource : source w.files input = .ok text)
    (hbs : HasActions (statements text) bs) (hf : (assemble output w input).fault = none) :
    (assemble output w input).state.state.Follows (as ++ bs) ∧
      (assemble output w input).state.state.Resolved := by
  rw [assemble_of_source hsource] at hf ⊢
  obtain ⟨hp, hr⟩ := Outcome.fault_andThen_eq_none_iff.1 (fault_of_save hf)
  obtain ⟨left, he⟩ := state_save output w.files
    ((w.state.withText text).program.andThen State.resolve)
  have hnext := h.program hbs hp
  rw [he, Outcome.state_andThen _ hp]
  exact ⟨hnext.resolve.retext left, (hnext.resolved hr).retext left⟩

/-- Files that are assembled without a fault perform the actions of their texts, and leave all branches
with their targets. -/
theorem follows_assembleAll (h : w.state.Follows as) (hp : w.state.Resolved)
    (hf : (assembleAll output w inputs).fault = none) :
    ∃ bs, HasActions ((texts output w inputs).flatMap statements) bs ∧
      (assembleAll output w inputs).state.state.Follows (as ++ bs) ∧
      (assembleAll output w inputs).state.state.Resolved := by
  induction inputs generalizing w as with
  | nil => exact ⟨[], .nil, by simpa [assembleAll] using h, hp⟩
  | cons input inputs ih =>
    rw [assembleAll, Outcome.forEach_cons] at hf ⊢
    obtain ⟨hfirst, hrest⟩ := Outcome.fault_andThen_eq_none_iff.1 hf
    obtain ⟨text, hsource, hprogram, _⟩ := exists_source hfirst
    obtain ⟨bs, hbs⟩ := actions_of_program hprogram
    obtain ⟨hfollows, hresolved⟩ := follows_assemble h hsource hbs hfirst
    obtain ⟨cs, hcs, hend⟩ := ih hfollows hresolved hrest
    refine ⟨bs ++ cs, ?_, ?_⟩
    · simp only [texts, hsource, List.flatMap_cons]
      exact List.rel_append hbs hcs
    · rw [Outcome.state_andThen _ hfirst, ← List.append_assoc]
      exact hend

theorem files_assemble (output : String) (w : Workspace) (input : String) :
    (assemble output w input).state.files = w.files ∨
      ∃ image, (assemble output w input).state.files =
        w.files.insert (FileStore.path output) (.file image) := by
  rcases assemble_cases output w input with ⟨_, _, _, hfiles⟩ | ⟨_, _, _, _, _, hwrite⟩
  · exact .inl hfiles
  · exact .inr ⟨_, FileStore.write_eq_ok hwrite⟩

theorem writable_assemble (h : w.files.Writable output) (input : String) :
    (assemble output w input).state.files.Writable output := by
  rcases files_assemble output w input with he | ⟨image, he⟩
  · rw [he]
    exact h
  · rw [he]
    exact h.insert image

theorem writable_assembleAll (h : w.files.Writable output) (inputs : List String) :
    (assembleAll output w inputs).state.files.Writable output :=
  Outcome.forEach_induction (P := fun w : Workspace => w.files.Writable output) h
    fun _ input _ hw => writable_assemble hw input

theorem fault_assemble (hw : w.files.Writable output) (hsource : source w.files input = .ok text)
    (hf : (w.state.withText text).program.fault = none) :
    (assemble output w input).fault = (w.state.withText text).program.state.resolve.fault := by
  rw [assemble_of_source hsource, ← Outcome.fault_andThen _ hf]
  rcases (w.state.withText text).program.andThen State.resolve with ⟨s, notices, _ | f⟩
  · simp only [save, hw.write]
  · rfl

theorem source_assemble {other : String} (h : FileStore.path other ≠ FileStore.path output) :
    source (assemble output w input).state.files other = source w.files other := by
  rcases files_assemble output w input with he | ⟨image, he⟩
  · rw [he]
  · simp only [he, source, FileStore.read, FileStore.get?_insert_of_ne h]

theorem assemble_of_actions (h : w.state.Follows as) (hw : w.files.Writable output)
    (hsource : source w.files input = .ok text) (hbs : HasActions (statements text) bs)
    (hfits : Layout.Fits (as ++ bs)) (hdef : Layout.undefined? (as ++ bs) = none) :
    (assemble output w input).fault = none ∧
      (assemble output w input).state.state.Follows (as ++ bs) ∧
      (assemble output w input).state.state.Resolved := by
  have hp := h.fault_program hbs hfits
  have hf : (assemble output w input).fault = none := by
    rw [fault_assemble hw hsource hp, (h.program hbs hp).fault_resolve, hdef]
    rfl
  exact ⟨hf, follows_assemble h hsource hbs hf⟩

def twoSources (first second : String) : FileStore :=
  (FileStore.empty.insert ["a"]
      (.file (first.toList.flatMap String.utf8EncodeChar).toArray)).insert ["b"]
    (.file (second.toList.flatMap String.utf8EncodeChar).toArray)

theorem path_a : FileStore.path "a" = ["a"] := by cbv

theorem path_b : FileStore.path "b" = ["b"] := by cbv

theorem path_o : FileStore.path "o" = ["o"] := by cbv

theorem source_twoSources {first second : String} {a b : List Char}
    (ha : Text.Utf8.decode (first.toList.flatMap String.utf8EncodeChar) = .ok a)
    (hb : Text.Utf8.decode (second.toList.flatMap String.utf8EncodeChar) = .ok b) :
    source (twoSources first second) "a" = .ok (Text.unifyNewlines a) ∧
      source (twoSources first second) "b" = .ok (Text.unifyNewlines b) := by
  constructor
  · rw [source, FileStore.read, if_neg (by decide), path_a, twoSources,
      FileStore.get?_insert_of_ne (by decide), FileStore.get?_insert_self (by decide)]
    simp only [ha]
  · rw [source, FileStore.read, if_neg (by decide), path_b, twoSources,
      FileStore.get?_insert_self (by decide)]
    simp only [hb]

theorem writable_twoSources (first second : String) : (twoSources first second).Writable "o" := by
  have hnone : (twoSources first second).get? ["o"] = none := by
    rw [twoSources, FileStore.get?_insert_of_ne (by decide), FileStore.get?_insert_of_ne (by decide)]
    simp [FileStore.get?, FileStore.empty]
  exact ⟨_, by rw [FileStore.write, if_neg (by decide), path_o, hnone]; rfl⟩

theorem statements_jump :
    statements "JMP L".toList = [.instruction (.branch .jmp) ("L", ())] := by
  have hjmp : Statement.read? (skipBlanks "JMP L".toList) =
      some (.instruction (.branch .jmp) ("L", ()), []) := by
    rw [skipBlanks_of_none rfl]
    rfl
  rw [statements_of_read? hjmp, statements_nil]

theorem statements_jump_back :
    statements "L:JMP L".toList = [.label "L", .instruction (.branch .jmp) ("L", ())] := by
  have hlabel : Statement.read? (skipBlanks "L:JMP L".toList) =
      some (.label "L", "JMP L".toList) := by
    rw [skipBlanks_of_none rfl]
    rfl
  rw [statements_of_read? hlabel, statements_jump]

theorem statements_halt : statements "L:HLT".toList = [.label "L", .instruction .hlt ()] := by
  have hlabel : Statement.read? (skipBlanks "L:HLT".toList) = some (.label "L", "HLT".toList) := by
    rw [skipBlanks_of_none rfl]
    rfl
  have hhlt : Statement.read? (skipBlanks "HLT".toList) = some (.instruction .hlt (), []) := by
    rw [skipBlanks_of_none rfl]
    rfl
  rw [statements_of_read? hlabel, statements_of_read? hhlt, statements_nil]

theorem decode_halt : Text.Utf8.decode ("L:HLT".toList.flatMap String.utf8EncodeChar) =
    .ok "L:HLT".toList := by cbv

theorem actions_jump : HasActions (statements "JMP L".toList) [.emit .add (.branch .jmp "L")] := by
  rw [statements_jump]
  exact .cons rfl .nil

theorem actions_halt : HasActions (statements "L:HLT".toList) [.define "L", .emit .add .hlt] := by
  rw [statements_halt]
  exact .cons rfl (.cons rfl .nil)

theorem assembleAll_twoSources :
    let run := assembleAll "o" ⟨fresh, twoSources "L:JMP L" "L:HLT"⟩
    ((run ["a"]).fault = none ∧
      (run ["a"]).state.state.Follows [.define "L", .emit .add (.branch .jmp "L")] ∧
      (run ["a"]).state.state.Resolved) ∧
    (run ["a", "b"]).fault = none ∧
      (run ["a", "b"]).state.state.Follows [.define "L", .emit .add (.branch .jmp "L"),
        .define "L", .emit .add .hlt] ∧
      (run ["a", "b"]).state.state.Resolved := by
  intro run
  have hdecode : Text.Utf8.decode ("L:JMP L".toList.flatMap String.utf8EncodeChar) =
      .ok "L:JMP L".toList := by cbv
  obtain ⟨ha, hb⟩ := source_twoSources hdecode decode_halt
  have hjump : HasActions (statements "L:JMP L".toList)
      [.define "L", .emit .add (.branch .jmp "L")] := by
    rw [statements_jump_back]
    exact .cons rfl (.cons rfl .nil)
  have hw := writable_twoSources "L:JMP L" "L:HLT"
  have hone : run ["a"] = assemble "o" ⟨fresh, twoSources "L:JMP L" "L:HLT"⟩ "a" :=
    Outcome.forEach_singleton ..
  have hfirst := assemble_of_actions (w := ⟨fresh, twoSources "L:JMP L" "L:HLT"⟩) follows_fresh hw ha
    hjump ⟨by decide, by decide⟩ rfl
  rw [← hone] at hfirst
  refine ⟨hfirst, ?_⟩
  have hb' : source (run ["a"]).state.files "b" = .ok "L:HLT".toList := by
    rw [hone]
    exact (source_assemble (by rw [path_b, path_o]; decide)).trans hb
  have hrun : run ["a", "b"] =
      (assemble "o" (run ["a"]).state "b").after (run ["a"]).notices :=
    Outcome.forEach_concat "b" hfirst.1
  rw [hrun]
  exact assemble_of_actions hfirst.2.1 (writable_assembleAll hw ["a"]) hb' actions_halt
    ⟨by decide, by decide⟩ rfl

/-- It does not show in the end that branches were resolved in between. Texts that are assembled one
after the other, with any number of attempts to resolve before each and after the last, give the same
state as texts that are resolved once; and so do files, which are resolved after each. -/
theorem resolving_between_unseen :
    (∀ (plan : List (Nat × List Char)) (last : Nat),
      let often := (fresh.programsResolving plan).andThen fun s => (s.resolveTimes last).resolve
      let once := (fresh.programs (plan.map Prod.snd)).andThen State.resolve
      often.fault = none → often.state.code ≤ 0x8000 →
        once.fault = none ∧ often.state = { once.state with text := often.state.text }) ∧
    ∀ (output : String) (files : FileStore) (inputs : List String),
      let often := assembleAll output ⟨fresh, files⟩ inputs
      let once := (fresh.programs (texts output ⟨fresh, files⟩ inputs)).andThen State.resolve
      often.fault = none → often.state.state.code ≤ 0x8000 →
        once.fault = none ∧
          often.state.state = { once.state with text := often.state.state.text } := by
  constructor
  · intro plan last often once hf hcode
    obtain ⟨hplan, hlast⟩ := Outcome.fault_andThen_eq_none_iff.1 hf
    obtain ⟨as, has, hfollows⟩ := follows_fresh.programsResolving hplan
    have hstate : often.state =
        ((fresh.programsResolving plan).state.resolveTimes last).resolve.state :=
      Outcome.state_andThen _ hplan
    rw [hstate] at hcode ⊢
    have hend := hfollows.resolveTimes last
    exact hend.resolve.eq_resolve (hend.resolved hlast) hcode has
  · intro output files inputs often once hf hcode
    obtain ⟨as, has, hfollows, hresolved⟩ := follows_assembleAll follows_fresh resolved_fresh hf
    exact hfollows.eq_resolve hresolved hcode has

/-- A label that is defined behind its branch, so that the attempt to resolve in between fails, and
two files with a label of the same name. -/
theorem resolving_between_unseen_late_label :
    let plan := [(0, "JMP L".toList), (1, "L:HLT".toList)]
    let often := (fresh.programsResolving plan).andThen fun s => (s.resolveTimes 1).resolve
    let once := (fresh.programs (plan.map Prod.snd)).andThen State.resolve
    let files := twoSources "L:JMP L" "L:HLT"
    let both := assembleAll "o" ⟨fresh, files⟩ ["a", "b"]
    let merged := (fresh.programs (texts "o" ⟨fresh, files⟩ ["a", "b"])).andThen State.resolve
    ((fresh.withText "JMP L".toList).program.state.resolve.fault = some (.undefinedLabel "L") ∧
      often.fault = none ∧ often.state.code = 4 ∧
      once.fault = none ∧ often.state = { once.state with text := often.state.text }) ∧
    both.fault = none ∧ both.state.state.code = 4 ∧
      merged.fault = none ∧
        both.state.state = { merged.state with text := both.state.state.text } := by
  have hfirst := follows_fresh.program actions_jump
    (follows_fresh.fault_program actions_jump ⟨by decide, by decide⟩)
  have hplan : List.Forall₂ (fun (p : Nat × List Char) bs => HasActions (statements p.2) bs)
      [(0, "JMP L".toList), (1, "L:HLT".toList)] _ :=
    .cons actions_jump (.cons actions_halt .nil)
  obtain ⟨hf, hend⟩ := follows_fresh.resolve_of_actions hplan ⟨by decide, by decide⟩ rfl 1
  obtain ⟨_, hboth, hfollows, _⟩ := assembleAll_twoSources
  refine ⟨⟨hfirst.fault_resolve, hf, hend.records.code, ?_⟩, hboth, hfollows.records.code, ?_⟩
  · exact resolving_between_unseen.1 _ 1 hf (by rw [hend.records.code]; decide)
  · exact resolving_between_unseen.2 "o" _ ["a", "b"] hboth
      (by rw [hfollows.records.code]; decide)

/-- Later files keep what earlier ones have put into the image, up to the targets of branches whose
labels they define again. These branches follow the labels. -/
theorem earlier_code_kept (output : String) (files : FileStore) (before after : List String)
    (hf : (assembleAll output ⟨fresh, files⟩ (before ++ after)).fault = none)
    (hcode : (assembleAll output ⟨fresh, files⟩ (before ++ after)).state.state.code ≤ 0x8000) :
    let w := (assembleAll output ⟨fresh, files⟩ before).state
    let v := (assembleAll output ⟨fresh, files⟩ (before ++ after)).state
    (∀ i < w.state.code, v.state.image[i]? = w.state.image[i]? ∨
      ∃ r ∈ w.state.references.toList, r.Covers i ∧
        r.label ∈ (texts output w after).flatMap definedNames) ∧
    ∀ r ∈ w.state.references.toList, v.state.Points r := by
  intro w v
  rw [assembleAll, Outcome.forEach_append] at hf
  obtain ⟨hbefore, hafter⟩ := Outcome.fault_andThen_eq_none_iff.1 hf
  have hv : v = (assembleAll output w after).state := by
    simp only [v, assembleAll, Outcome.forEach_append]
    exact Outcome.state_andThen _ hbefore
  obtain ⟨as, _, hw, hwp⟩ := follows_assembleAll follows_fresh resolved_fresh hbefore
  obtain ⟨bs, hbs, hv', hvp⟩ := follows_assembleAll hw hwp hafter
  change v.state.code ≤ 0x8000 at hcode
  rw [hv] at hcode ⊢
  constructor
  · intro i hi
    exact hw.kept hwp hv' hvp hcode hbs hi
  · intro r hr
    apply hvp
    rw [hv'.records.references, Layout.references_append, ← hw.records.references]
    exact List.mem_append_left _ hr

/-- The branch of the first of two files follows its label into the second. -/
theorem earlier_code_kept_twoSources :
    let run := assembleAll "o" ⟨fresh, twoSources "L:JMP L" "L:HLT"⟩
    (run ["a", "b"]).fault = none ∧ (run ["a", "b"]).state.state.code = 4 ∧
      (∀ i < (run ["a"]).state.state.code,
        (run ["a", "b"]).state.state.image[i]? = (run ["a"]).state.state.image[i]? ∨
          ∃ r ∈ (run ["a"]).state.state.references.toList, r.Covers i ∧
            r.label ∈ (texts "o" (run ["a"]).state ["b"]).flatMap definedNames) ∧
      (run ["a"]).state.state.references.toList = [⟨"L", 0⟩] ∧
      (run ["a", "b"]).state.state.Points ⟨"L", 0⟩ := by
  intro run
  obtain ⟨⟨_, hone, _⟩, hboth, hfollows, _⟩ := assembleAll_twoSources
  have hrefs : (run ["a"]).state.state.references.toList = [⟨"L", 0⟩] := hone.records.references
  have hcode : (run ["a", "b"]).state.state.code = 4 := hfollows.records.code
  obtain ⟨hkept, hpoints⟩ := earlier_code_kept "o" (twoSources "L:JMP L" "L:HLT") ["a"] ["b"] hboth
    (by rw [List.singleton_append, hfollows.records.code]; decide)
  exact ⟨hboth, hcode, hkept, hrefs, hpoints ⟨"L", 0⟩ (hrefs ▸ List.mem_singleton_self _)⟩

/-- A later file can change the code of an earlier one: it defines the label of a branch again. -/
theorem earlier_code_not_always_kept :
    ¬ ∀ (output : String) (files : FileStore) (before after : List String),
      (assembleAll output ⟨fresh, files⟩ (before ++ after)).fault = none →
      (assembleAll output ⟨fresh, files⟩ (before ++ after)).state.state.code ≤ 0x8000 →
      ∀ i < (assembleAll output ⟨fresh, files⟩ before).state.state.code,
        (assembleAll output ⟨fresh, files⟩ (before ++ after)).state.state.image[i]? =
          (assembleAll output ⟨fresh, files⟩ before).state.state.image[i]? := by
  intro hall
  obtain ⟨⟨_, hone, hp⟩, hboth, htwo, hp'⟩ := assembleAll_twoSources
  have hkept := hall "o" (twoSources "L:JMP L" "L:HLT") ["a"] ["b"] hboth
    (by rw [List.singleton_append, htwo.records.code]; decide) 2
    (by rw [hone.records.code]; decide)
  have hmem : (⟨"L", 0⟩ : Reference) ∈ Layout.references
      [.define "L", .emit .add (.branch .jmp "L")] := List.mem_singleton_self _
  obtain ⟨addr, hl, _, hlow⟩ := hp ⟨"L", 0⟩ (by rw [hone.records.references]; exact hmem)
  obtain ⟨addr', hl', _, hlow'⟩ := hp' ⟨"L", 0⟩ (by
    rw [htwo.records.references]
    exact hmem)
  rw [hone.records.labels] at hl
  rw [htwo.records.labels] at hl'
  cases hl
  cases hl'
  rw [List.singleton_append, hlow, hlow'] at hkept
  cases hkept

/-- As far as a run over some files gets, each of them can be read and has the given text, whose
program meets no fault. -/
def Reads (output : String) (w : Workspace) (inputs : List (String × List Char)) : Prop :=
  ∀ before input text after, inputs = before ++ (input, text) :: after →
    let o := assembleAll output w (before.map Prod.fst)
    o.fault = none → source o.state.files input = .ok text ∧
      (o.state.state.withText text).program.fault = none

variable {files : FileStore} {named before after : List (String × List Char)}

theorem Reads.front (h : Reads output w (before ++ after)) : Reads output w before := by
  intro front input text back he
  exact h front input text (back ++ after) (by rw [he, List.append_assoc, List.cons_append])

theorem Reads.texts_eq (h : Reads output w named)
    (hf : (assembleAll output w (named.map Prod.fst)).fault = none) :
    texts output w (named.map Prod.fst) = named.map Prod.snd := by
  induction named generalizing w with
  | nil => rfl
  | cons p named ih =>
    obtain ⟨input, text⟩ := p
    have hsource := (h [] input text named rfl rfl).1
    rw [List.map_cons, assembleAll, Outcome.forEach_cons] at hf
    obtain ⟨hfirst, hrest⟩ := Outcome.fault_andThen_eq_none_iff.1 hf
    have htail : Reads output (assemble output w input).state named := by
      intro before next text' after he
      have hnext := h ((input, text) :: before) next text' after (by rw [he, List.cons_append])
      rw [List.map_cons, assembleAll, Outcome.forEach_cons] at hnext
      simp only [Outcome.fault_andThen _ hfirst, Outcome.state_andThen _ hfirst] at hnext
      exact hnext
    change source w.files input = .ok text at hsource
    simp only [List.map_cons, texts, hsource, ih htail hrest]

theorem reads_of_fault {e : Fault} (hsource : source w.files input = .ok text)
    (hprogram : (w.state.withText text).program.fault = none)
    (hf : (assemble output w input).fault = some e) : Reads output w ((input, text) :: named) := by
  intro before next text' after he o ho
  cases before with
  | nil =>
    cases he
    exact ⟨hsource, hprogram⟩
  | cons p before =>
    cases he
    simp only [o, List.map_cons, assembleAll, Outcome.forEach_cons, Outcome.andThen_of_fault _ hf,
      hf, reduceCtorEq] at ho

theorem Reads.fault_resolve (h : Reads output ⟨fresh, files⟩ (before ++ (input, text) :: after))
    (hf : (assembleAll output ⟨fresh, files⟩ (before.map Prod.fst)).fault = none) :
    ((assembleAll output ⟨fresh, files⟩ (before.map Prod.fst)).state.state.withText
        text).program.state.resolve.fault =
      (undefinedName? (before.map Prod.snd) text).map .undefinedLabel := by
  obtain ⟨as, has, hfollows, hresolved⟩ := follows_assembleAll follows_fresh resolved_fresh hf
  rw [h.front.texts_eq hf] at has
  exact hfollows.fault_resolve_program hresolved has (h before input text after rfl hf).2

theorem Reads.fault_assemble (h : Reads output ⟨fresh, files⟩ (before ++ (input, text) :: after))
    (hw : files.Writable output)
    (hf : (assembleAll output ⟨fresh, files⟩ (before.map Prod.fst)).fault = none) :
    (assemble output (assembleAll output ⟨fresh, files⟩ (before.map Prod.fst)).state input).fault =
      (undefinedName? (before.map Prod.snd) text).map .undefinedLabel := by
  obtain ⟨hsource, hprogram⟩ := h before input text after rfl hf
  rw [Workspace.fault_assemble (writable_assembleAll hw _) hsource hprogram]
  exact h.fault_resolve hf

/-- A run stops at the first file with a branch to a label that is defined neither there nor before. -/
theorem Reads.exists_undefined (h : Reads output ⟨fresh, files⟩ named) (hw : files.Writable output)
    {e : Fault} (hf : (assembleAll output ⟨fresh, files⟩ (named.map Prod.fst)).fault = some e) :
    ∃ before input text after name, named = before ++ (input, text) :: after ∧
      (assembleAll output ⟨fresh, files⟩ (before.map Prod.fst)).fault = none ∧
      undefinedName? (before.map Prod.snd) text = some name ∧ e = .undefinedLabel name ∧
      assembleAll output ⟨fresh, files⟩ (named.map Prod.fst) =
        assembleAll output ⟨fresh, files⟩ ((before ++ [(input, text)]).map Prod.fst) := by
  obtain ⟨front, input, back, hsplit, hfront, hlast, hcut⟩ := Outcome.exists_fault_of_forEach hf
  obtain ⟨before, rest, rfl, rfl, hrest⟩ := List.map_eq_append_iff.1 hsplit
  obtain ⟨⟨input, text⟩, after, rfl, rfl, rfl⟩ := List.map_eq_cons_iff.1 hrest
  have hfault := h.fault_assemble hw hfront
  rw [assembleAll, hlast] at hfault
  obtain ⟨name, hname, he⟩ := Option.map_eq_some_iff.1 hfault.symm
  refine ⟨before, input, text, after, name, rfl, hfront, hname, he.symm, hcut.trans ?_⟩
  rw [List.map_append]
  rfl

theorem Reads.fault_eq_none_iff (h : Reads output ⟨fresh, files⟩ named) (hw : files.Writable output) :
    (assembleAll output ⟨fresh, files⟩ (named.map Prod.fst)).fault = none ↔
      SelfContained (named.map Prod.snd) := by
  constructor
  · intro hf front text back hsplit
    obtain ⟨before, rest, rfl, rfl, hrest⟩ := List.map_eq_append_iff.1 hsplit
    obtain ⟨⟨input, text⟩, after, rfl, rfl, rfl⟩ := List.map_eq_cons_iff.1 hrest
    rw [List.map_append, assembleAll, Outcome.forEach_append, List.map_cons] at hf
    obtain ⟨hfront, hlast⟩ := Outcome.fault_andThen_eq_none_iff.1 hf
    rw [Outcome.forEach_cons] at hlast
    have hnone := h.fault_assemble hw hfront
    rw [assembleAll, (Outcome.fault_andThen_eq_none_iff.1 hlast).1] at hnone
    exact undefinedName?_eq_none_iff.1 (Option.map_eq_none_iff.1 hnone.symm)
  · intro hself
    cases hf : (assembleAll output ⟨fresh, files⟩ (named.map Prod.fst)).fault with
    | none => rfl
    | some e =>
      obtain ⟨before, input, text, after, name, rfl, _, hname, _⟩ := h.exists_undefined hw hf
      have hnone := undefinedName?_eq_none_iff.2 (hself (before.map Prod.snd) text
        (after.map Prod.snd) (by rw [List.map_append, List.map_cons]))
      rw [hname] at hnone
      cases hnone

/-- Files that can be read, and whose programs meet no fault, are all assembled exactly if every branch
goes to a label of the same file or of one before it. Otherwise the run stops at the first file for
which this fails, with the first of its labels that is not defined. A branch is never outside the
image. -/
theorem assembleAll_stops_at_undefined (output : String) (files : FileStore)
    (inputs : List (String × List Char)) (hw : files.Writable output)
    (hr : Reads output ⟨fresh, files⟩ inputs) :
    let run := fun inputs : List (String × List Char) =>
      assembleAll output ⟨fresh, files⟩ (inputs.map Prod.fst)
    ((run inputs).fault = none ↔ SelfContained (inputs.map Prod.snd)) ∧
    (¬ SelfContained (inputs.map Prod.snd) → ∃ before input text after name,
      inputs = before ++ (input, text) :: after ∧ SelfContained (before.map Prod.snd) ∧
      undefinedName? (before.map Prod.snd) text = some name ∧
      (run before).fault = none ∧ run inputs = run (before ++ [(input, text)]) ∧
      (run inputs).fault = some (.undefinedLabel name) ∧
      (Fault.undefinedLabel name).message = "Undefined label: " ++ name) ∧
    ∀ before input text after, inputs = before ++ (input, text) :: after →
      (run before).fault = none →
      ((run before).state.state.withText text).program.state.resolve.fault ≠
        some (.image .outside) := by
  intro run
  refine ⟨hr.fault_eq_none_iff hw, ?_, ?_⟩
  · intro hself
    cases hf : (run inputs).fault with
    | none => exact absurd ((hr.fault_eq_none_iff hw).1 hf) hself
    | some e =>
      obtain ⟨before, input, text, after, name, rfl, hbefore, hname, rfl, hcut⟩ :=
        hr.exists_undefined hw hf
      exact ⟨before, input, text, after, name, rfl, (hr.front.fault_eq_none_iff hw).1 hbefore,
        hname, hbefore, hcut, rfl, rfl⟩
  · rintro before input text after rfl hbefore hout
    rw [hr.fault_resolve hbefore] at hout
    obtain ⟨name, _, he⟩ := Option.map_eq_some_iff.1 hout
    cases he

/-- The label is defined in the second file only, which comes too late for the first. -/
theorem assembleAll_stops_at_undefined_late_label :
    let inputs := [("a", "JMP L".toList), ("b", "L:HLT".toList)]
    let files := twoSources "JMP L" "L:HLT"
    files.Writable "o" ∧ Reads "o" ⟨fresh, files⟩ inputs ∧ ¬ SelfContained (inputs.map Prod.snd) ∧
      ∃ name, (assembleAll "o" ⟨fresh, files⟩ (inputs.map Prod.fst)).fault =
        some (.undefinedLabel name) := by
  have hw := writable_twoSources "JMP L" "L:HLT"
  have hdecode : Text.Utf8.decode ("JMP L".toList.flatMap String.utf8EncodeChar) =
      .ok "JMP L".toList := by cbv
  have hsource := (source_twoSources hdecode decode_halt).1
  have hprogram := follows_fresh.fault_program actions_jump ⟨by decide, by decide⟩
  have hfault : (assemble "o" ⟨fresh, twoSources "JMP L" "L:HLT"⟩ "a").fault =
      some (.undefinedLabel "L") :=
    (fault_assemble hw hsource hprogram).trans
      (follows_fresh.program actions_jump hprogram).fault_resolve
  have hreads : Reads "o" ⟨fresh, twoSources "JMP L" "L:HLT"⟩
      [("a", "JMP L".toList), ("b", "L:HLT".toList)] := reads_of_fault hsource hprogram hfault
  have hself : ¬ SelfContained ["JMP L".toList, "L:HLT".toList] := by
    intro h
    have hname : "L" ∈ branchNames "JMP L".toList := by
      rw [branchNames, statements_jump]
      exact List.mem_singleton_self _
    have hmem := h [] "JMP L".toList ["L:HLT".toList] rfl "L" hname
    rw [List.nil_append, List.flatMap_singleton, definedNames, statements_jump] at hmem
    cases hmem
  obtain ⟨_, hstops, _⟩ := assembleAll_stops_at_undefined "o" _ _ hw hreads
  obtain ⟨_, _, _, _, name, _, _, _, _, _, hname, _⟩ := hstops hself
  exact ⟨hw, hreads, hself, name, hname⟩

end Workspace

end ByteAsm
