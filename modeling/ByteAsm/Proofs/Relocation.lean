import ByteAsm.Proofs.Naming
import ByteAsm.Proofs.Repatching
import Mathlib.Data.List.Induction

/-! Relocation. A program that finds room for its code and its data gives the same bytes wherever this
room is, and whatever the state holds besides. Only the addresses of its labels and of its branches move
with the code. -/
namespace ByteAsm

open Source

/-- A notice whose label address is counted from a base. -/
def Notice.moved (base : Nat) : Notice → Notice
  | labelDefined name addr => labelDefined name (base + addr)
  | n => n

def Reference.moved (base : Nat) (r : Reference) : Reference := { r with offset := base + r.offset }

namespace Layout

/-- What an action reports if nothing stops it. -/
def notice? : Nat × Action → Option Notice
  | (addr, .define name) => some (.labelDefined name addr)
  | (_, .store _ bytes) => some (.dataStored bytes)
  | (_, .complain token) => some (.unknownToken token)
  | _ => none

def notices (as : List Action) : List Notice := (located 0 as).filterMap notice?

theorem notice?_add (base addr : Nat) (a : Action) :
    notice? (base + addr, a) = (notice? (addr, a)).map (Notice.moved base) := by
  cases a <;> rfl

theorem reference?_add (base addr : Nat) (a : Action) :
    reference? (base + addr, a) = (reference? (addr, a)).map (Reference.moved base) := by
  cases a with
  | emit p i => cases h : i.target? <;> simp [reference?, instruction?, h, Reference.moved]
  | _ => rfl

end Layout

namespace State

variable {s t : State} {as : List Action} {a : Action} {n d : Nat}

/-- Room for code and for data: zeros at the next addresses of both, which do not meet. -/
structure Room (s : State) (n d : Nat) : Prop where
  code : ∀ i < n, s.image[s.code + i]? = some 0
  data : ∀ j < d, s.image[s.data + j]? = some 0
  apart : ∀ i < n, ∀ j < d, s.code + i ≠ s.data + j

theorem Room.mono {m e : Nat} (h : s.Room n d) (hn : m ≤ n) (hd : e ≤ d) : s.Room m e where
  code i hi := h.code i (by omega)
  data j hj := h.data j (by omega)
  apart i hi j hj := h.apart i (by omega) j (by omega)

theorem outside_of_ne {x start length : Nat} (h : ∀ i < length, x ≠ start + i) :
    x < start ∨ start + length ≤ x := by
  by_contra hin
  exact h (x - start) (by omega) (by omega)

theorem Room.code_outside {i : Nat} (h : s.Room n d) (hi : i < n) :
    s.code + i < s.data ∨ s.data + d ≤ s.code + i :=
  outside_of_ne fun j hj => h.apart i hi j hj

theorem Room.data_outside {j : Nat} (h : s.Room n d) (hj : j < d) :
    s.data + j < s.code ∨ s.code + n ≤ s.data + j :=
  outside_of_ne fun i hi => (h.apart i hi j hj).symm

theorem notices_perform (hf : (s.perform a).fault = none) :
    (s.perform a).notices = (Layout.notice? (s.code, a)).toList := by
  cases a with
  | store p bytes =>
    rw [perform_store] at hf ⊢
    simp [Option.map_eq_none_iff.1 hf, Layout.notice?]
  | _ => rfl

/-- The state `t` is `s` with the results of some actions: their bytes at the next addresses, their
labels and references counted from there, and all else as it was. -/
structure Loaded (s : State) (as : List Action) (t : State) : Prop where
  code : t.code = s.code + (Layout.draft as).length
  data : t.data = s.data + (Layout.data as).length
  image : s.image.Overlay t.image s.code (Layout.draft as) s.data (Layout.data as)
  labels : ∀ name, t.labels[name]? =
    ((Layout.address? as name).map (s.code + ·)).or s.labels[name]?
  references : t.references.toList =
    s.references.toList ++ (Layout.references as).map (Reference.moved s.code)

theorem loaded_refl (s : State) : s.Loaded [] s where
  code := rfl
  data := rfl
  image := by
    constructor
    · intro i hge hlt
      exact absurd hlt (Nat.not_lt.2 hge)
    · intro i hge hlt
      exact absurd hlt (Nat.not_lt.2 hge)
    · intro i _ _ _
      rfl
  labels name := rfl
  references := by simp [Layout.references, Layout.located]

theorem Loaded.retext (h : s.Loaded as t) (text : Option (List Char)) :
    s.Loaded as { t with text := text } :=
  ⟨h.code, h.data, h.image, h.labels, h.references⟩

theorem Loaded.fault_perform (h : s.Loaded as t)
    (hroom : s.Room ((Layout.draft as).length + a.draft.length)
      ((Layout.data as).length + a.data.length)) : (t.perform a).fault = none := by
  cases a with
  | emit p i =>
    rw [perform_emit, h.code]
    refine Option.map_eq_none_iff.2 (h.image.fault_place ?_ ?_)
    · intro k hk
      rw [Nat.add_assoc]
      exact hroom.code _ (Nat.add_lt_add_left hk _)
    · intro k hk
      rw [Nat.add_assoc]
      exact hroom.code_outside (Nat.add_lt_add_left hk _)
  | store p bytes =>
    rw [perform_store, h.data]
    refine Option.map_eq_none_iff.2 (h.image.symm.fault_place ?_ ?_)
    · intro k hk
      rw [Nat.add_assoc]
      exact hroom.data _ (Nat.add_lt_add_left hk _)
    · intro k hk
      rw [Nat.add_assoc]
      exact hroom.data_outside (Nat.add_lt_add_left hk _)
  | _ => rfl

theorem Loaded.perform (h : s.Loaded as t)
    (hroom : s.Room ((Layout.draft as).length + a.draft.length)
      ((Layout.data as).length + a.data.length)) : s.Loaded (as ++ [a]) (t.perform a).state := by
  have hf := h.fault_perform hroom
  constructor
  · simp [code_perform hf, h.code, Nat.add_assoc]
  · simp [data_perform hf, h.data, Nat.add_assoc]
  · simp only [Layout.draft_append, Layout.data_append, Layout.draft_cons, Layout.data_cons,
      Layout.draft_nil, Layout.data_nil, List.append_nil]
    cases a with
    | emit p i =>
      simp only [perform_emit, h.code, Action.draft, Action.data, List.append_nil] at hf ⊢
      refine h.image.place (Option.map_eq_none_iff.1 hf) ?_
      intro k hk
      rw [Nat.add_assoc]
      exact hroom.code _ (Nat.add_lt_add_left hk _)
    | store p bytes =>
      simp only [perform_store, h.data, Action.draft, Action.data, List.append_nil] at hf ⊢
      refine (h.image.symm.place (Option.map_eq_none_iff.1 hf) ?_).symm
      intro k hk
      rw [Nat.add_assoc]
      exact hroom.data _ (Nat.add_lt_add_left hk _)
    | pad =>
      simp only [Action.draft, Action.data, List.append_nil]
      exact h.image.push
    | _ =>
      simp only [Action.draft, Action.data, List.append_nil]
      exact h.image
  · intro name
    rw [labels_perform, Layout.address?_concat, h.labels, h.code]
    cases a with
    | define other =>
      simp only [Layout.definition?, Option.some.injEq, Prod.mk.injEq, and_true]
      split <;> rfl
    | _ => rfl
  · rw [references_perform, h.references, h.code, Layout.reference?_add, Layout.references,
      Layout.references, Layout.filterMap_located_concat, List.map_append, Option.toList_map,
      List.append_assoc]

/-- All actions are loaded where there is room for their code and their data. -/
theorem Room.forEach (hroom : s.Room (Layout.draft as).length (Layout.data as).length) :
    let o := Outcome.forEach State.perform s as
    o.fault = none ∧ s.Loaded as o.state ∧ o.notices = (Layout.notices as).map (Notice.moved s.code) := by
  -- the last action is taken off, since everything is counted from the state before the first
  induction as using List.reverseRecOn with
  | nil => exact ⟨rfl, loaded_refl s, rfl⟩
  | append_singleton as a ih =>
    simp only [Layout.draft_append, Layout.data_append, Layout.draft_cons, Layout.data_cons,
      Layout.draft_nil, Layout.data_nil, List.append_nil, List.length_append] at hroom
    obtain ⟨hf, hloaded, hnotices⟩ := ih (hroom.mono (by omega) (by omega))
    have hlast := hloaded.fault_perform hroom
    rw [Outcome.forEach_concat a hf]
    refine ⟨hlast, hloaded.perform hroom, ?_⟩
    rw [Outcome.after, hnotices, notices_perform hlast, hloaded.code, Layout.notice?_add,
      Layout.notices, Layout.notices, Layout.filterMap_located_concat, List.map_append,
      Option.toList_map]

theorem Room.program {text : List Char} (has : HasActions (statements text) as)
    (hroom : s.Room (Layout.draft as).length (Layout.data as).length) :
    let o := (s.withText text).program
    o.fault = none ∧ s.Loaded as o.state ∧ o.notices = (Layout.notices as).map (Notice.moved s.code) := by
  obtain ⟨left, he⟩ := program_of_actions has s
  obtain ⟨hf, hloaded, hnotices⟩ := hroom.forEach
  intro o
  rw [show o = _ from he]
  exact ⟨hf, hloaded.retext (some left), hnotices⟩

theorem ends_forEach_perform (hf : (Outcome.forEach State.perform s as).fault = none) :
    (Outcome.forEach State.perform s as).state.code = s.code + (Layout.draft as).length ∧
      (Outcome.forEach State.perform s as).state.data = s.data + (Layout.data as).length := by
  refine Outcome.forEach_trace (fun t as => t.code = s.code + (Layout.draft as).length ∧
    t.data = s.data + (Layout.data as).length) [] ⟨rfl, rfl⟩ ?_ hf
  rintro t as a ⟨hcode, hdata⟩ hf
  simp [code_perform hf, data_perform hf, hcode, hdata, Nat.add_assoc]

/-- The code and the data of a text do not depend on where it is assembled. From any other state with
room for them, at any other addresses, the same text assembles without a fault and gives the same bytes.
It defines the same labels and makes the same references, both as far behind the start of the code as
before, and it reports the same, up to the addresses of these labels. -/
theorem program_relocated (s t : State) (text : List Char) (n d : Nat)
    (hf : (s.withText text).program.fault = none)
    (hcode : (s.withText text).program.state.code = s.code + n)
    (hdata : (s.withText text).program.state.data = s.data + d) (hs : s.Room n d) (ht : t.Room n d) :
    let o := (s.withText text).program
    let p := (t.withText text).program
    p.fault = none ∧ p.state.code = t.code + n ∧ p.state.data = t.data + d ∧
    (∀ i < n, p.state.image[t.code + i]? = o.state.image[s.code + i]?) ∧
    (∀ j < d, p.state.image[t.data + j]? = o.state.image[s.data + j]?) ∧
    (∀ name ∈ definedNames text, ∃ k ≤ n,
      o.state.labels[name]? = some (s.code + k) ∧ p.state.labels[name]? = some (t.code + k)) ∧
    (∀ name ∉ definedNames text,
      o.state.labels[name]? = s.labels[name]? ∧ p.state.labels[name]? = t.labels[name]?) ∧
    (∃ rs : List Reference, rs.map Reference.label = branchNames text ∧
      o.state.references.toList = s.references.toList ++ rs.map (Reference.moved s.code) ∧
      p.state.references.toList = t.references.toList ++ rs.map (Reference.moved t.code)) ∧
    ∃ ns : List Notice,
      o.notices = ns.map (Notice.moved s.code) ∧ p.notices = ns.map (Notice.moved t.code) := by
  intro o p
  obtain ⟨as, has⟩ := actions_of_program hf
  obtain ⟨rfl, rfl⟩ : n = (Layout.draft as).length ∧ d = (Layout.data as).length := by
    obtain ⟨left, he⟩ := program_of_actions has s
    rw [he] at hf hcode hdata
    have hend := ends_forEach_perform hf
    simp only [Outcome.retext] at hcode hdata
    omega
  obtain ⟨_, hone, hnotices⟩ := hs.program has
  obtain ⟨hfault, htwo, hothers⟩ := ht.program has
  have hnone : ∀ name, Layout.address? as name = none ↔ name ∉ definedNames text := by
    intro name
    have hone : HasActions ([text].flatMap statements) as := by simpa using has
    rw [Layout.address?_eq_none_iff hone, List.flatMap_singleton]
  refine ⟨hfault, htwo.code, htwo.data, ?_, ?_, ?_, ?_, ?_, _, hnotices, hothers⟩
  · intro i hi
    rw [htwo.image.getElem?_add hi (ht.code_outside hi), hone.image.getElem?_add hi (hs.code_outside hi)]
  · intro j hj
    rw [htwo.image.symm.getElem?_add hj (ht.data_outside hj),
      hone.image.symm.getElem?_add hj (hs.data_outside hj)]
  · intro name hname
    obtain ⟨k, hk⟩ := Option.ne_none_iff_exists'.1 fun h => (hnone name).1 h hname
    refine ⟨k, Layout.address?_le hk, ?_, ?_⟩
    · rw [hone.labels, hk]
      rfl
    · rw [htwo.labels, hk]
      rfl
  · intro name hname
    have hk := (hnone name).2 hname
    constructor
    · rw [hone.labels, hk]
      rfl
    · rw [htwo.labels, hk]
      rfl
  · refine ⟨Layout.references as, ?_, hone.references, htwo.references⟩
    exact Layout.map_located (fun _ _ addr h => Statement.reference?_of_action h addr) has

/-- A branch to itself with a token that is no statement and a string, one byte further up and beside
a label of the same name. -/
theorem program_relocated_branch :
    let s : State := ⟨#[0, 0, 0, 7, 0], none, 0, 4, ∅, #[]⟩
    let t : State := ⟨#[9, 0, 0, 0, 0], none, 1, 4, (∅ : Std.TreeMap String Nat).insert "L" 8,
      #[⟨"M", 0⟩]⟩
    let text := "L:JMP L ? .ascii \"a\"".toList
    let o := (s.withText text).program
    let p := (t.withText text).program
    o.fault = none ∧ o.state.code = 3 ∧ o.state.data = 5 ∧ s.Room 3 1 ∧ t.Room 3 1 ∧
      p.fault = none ∧ p.state.code = 4 ∧ p.state.data = 5 ∧
      (∀ i < 3, p.state.image[1 + i]? = o.state.image[0 + i]?) ∧
      (∃ k ≤ 3, o.state.labels["L"]? = some (0 + k) ∧ p.state.labels["L"]? = some (1 + k)) ∧
      ∃ rs : List Reference, rs.map Reference.label = ["L"] ∧
        o.state.references.toList = rs.map (Reference.moved 0) ∧
        p.state.references.toList = ⟨"M", 0⟩ :: rs.map (Reference.moved 1) := by
  intro s t text o p
  have hlabel : Statement.read? (skipBlanks text) =
      some (.label "L", "JMP L ? .ascii \"a\"".toList) := by
    rw [skipBlanks_of_none rfl]
    rfl
  have hjmp : Statement.read? (skipBlanks "JMP L ? .ascii \"a\"".toList) =
      some (.instruction (.branch .jmp) ("L", ()), " ? .ascii \"a\"".toList) := by
    rw [skipBlanks_of_none rfl]
    rfl
  have hunknown : Statement.read? (skipBlanks " ? .ascii \"a\"".toList) =
      some (.unknown ['?'], " .ascii \"a\"".toList) := by
    have hblank : afterBlank? " ? .ascii \"a\"".toList = some "? .ascii \"a\"".toList := rfl
    rw [skipBlanks_of_afterBlank? hblank, skipBlanks_of_none rfl]
    rfl
  have hdata : Statement.read? (skipBlanks " .ascii \"a\"".toList) = some (.data ['a'], []) := by
    have hblank : afterBlank? " .ascii \"a\"".toList = some ".ascii \"a\"".toList := rfl
    rw [skipBlanks_of_afterBlank? hblank, skipBlanks_of_none rfl]
    rfl
  have htext : statements text = [.label "L", .instruction (.branch .jmp) ("L", ()), .unknown ['?'],
      .data ['a']] := by
    rw [statements_of_read? hlabel, statements_of_read? hjmp, statements_of_read? hunknown,
      statements_of_read? hdata, statements_nil]
  have hbytes : (Statement.data ['a']).action = .ok (.store .add [97]) := by cbv
  have has : HasActions (statements text) [.define "L", .emit .add (.branch .jmp "L"),
      .complain ['?'], .store .add [97]] := by
    rw [htext]
    exact .cons rfl (.cons rfl (.cons rfl (.cons hbytes .nil)))
  have hs : s.Room 3 1 := ⟨by decide, by decide, by decide⟩
  have ht : t.Room 3 1 := ⟨by decide, by decide, by decide⟩
  obtain ⟨hf, hloaded, _⟩ := hs.program has
  obtain ⟨hfault, hcode, hend, hsame, _, hlabels, _, ⟨rs, hrs, hone, htwo⟩, _⟩ :=
    program_relocated s t text 3 1 hf hloaded.code hloaded.data hs ht
  have hbranches : branchNames text = ["L"] := by
    rw [branchNames, htext]
    rfl
  have hdefined : "L" ∈ definedNames text := by
    rw [definedNames, htext]
    exact List.mem_singleton_self _
  exact ⟨hf, hloaded.code, hloaded.data, hs, ht, hfault, hcode, hend, hsame, hlabels "L" hdefined,
    rs, hrs.trans hbranches, hone, htwo⟩

end State

end ByteAsm
