import ByteAsm.Proofs.Session

/-! Resolving branches once or many times. Resolving changes no bytes but the targets of branches, and
states that differ in those bytes only are assembled further in the same way. When all branches are
resolved in the end, it does not matter how often that was tried before. -/
namespace ByteAsm

open Source

/-- The two bytes behind its opcode that hold the target of a branch. -/
def Reference.Covers (r : Reference) (i : Nat) : Prop := i = r.offset + 1 ∨ i = r.offset + 2

/-- What is placed, and how far, depends on the bytes from the first address on only. -/
theorem Image.place_congr {image other : Image} {addr : Nat} (p : Placement) (bs : List UInt8)
    (hsize : image.size = other.size) (h : ∀ i, addr ≤ i → image[i]? = other[i]?) :
    (image.place p addr bs).next = (other.place p addr bs).next ∧
      (image.place p addr bs).fault = (other.place p addr bs).fault ∧
      ∀ i, addr ≤ i → (image.place p addr bs).image[i]? = (other.place p addr bs).image[i]? := by
  induction bs generalizing image other addr with
  | nil => exact ⟨rfl, rfl, h⟩
  | cons b bs ih =>
    rcases Nat.lt_or_ge addr image.size with hlt | hge
    · have hlt' : addr < other.size := hsize ▸ hlt
      have hfirst : image[addr] = other[addr] := by
        simpa [hlt, hlt'] using h addr (Nat.le_refl _)
      cases hv : p.combine? image[addr] b with
      | none =>
        rw [place_cons_overflow hlt hv, place_cons_overflow hlt' (hfirst ▸ hv)]
        exact ⟨rfl, rfl, h⟩
      | some v =>
        rw [place_cons_some hlt hv, place_cons_some hlt' (hfirst ▸ hv)]
        have hset : ∀ i, addr ≤ i → (image.set addr v)[i]? = (other.set addr v)[i]? := by
          intro i hi
          rw [Array.getElem?_set, Array.getElem?_set, h i hi]
        have hbehind : ∀ i, addr + 1 ≤ i → (image.set addr v)[i]? = (other.set addr v)[i]? :=
          fun i hi => hset i (by omega)
        obtain ⟨hnext, hfault, hrest⟩ := ih (by simpa using hsize) hbehind
        refine ⟨hnext, hfault, ?_⟩
        intro i hi
        rcases Nat.lt_or_ge i (addr + 1) with hat | hge
        · rw [getElem?_place_of_lt hat, getElem?_place_of_lt hat, hset i hi]
        · exact hrest i hge
    · rw [place_cons_outside hge, place_cons_outside (hsize ▸ hge)]
      exact ⟨rfl, rfl, h⟩

namespace Layout

/-- Code and data that fit in their halves of the image. -/
structure Fits (as : List Action) : Prop where
  code : (draft as).length ≤ 0x8000
  data : (Layout.data as).length ≤ 0x8000

theorem Fits.front {as bs : List Action} (h : Fits (as ++ bs)) : Fits as := by
  obtain ⟨hcode, hdata⟩ := h
  simp only [draft_append, data_append, List.length_append] at hcode hdata
  exact ⟨by omega, by omega⟩

def undefined? (as : List Action) : Option Reference :=
  (references as).find? fun r => (address? as r.label).isNone

end Layout

namespace State

variable {s t : State} {r : Reference} {rs : List Reference} {i : Nat}

def Points (s : State) (r : Reference) : Prop :=
  ∃ addr, s.labels[r.label]? = some addr ∧
    s.image[r.offset + 1]? = some (UInt8.ofNat (addr / 0x100)) ∧
    s.image[r.offset + 2]? = some (UInt8.ofNat addr)

def Resolved (s : State) : Prop := ∀ r ∈ s.references.toList, s.Points r

@[simp] theorem labels_patch (s : State) (r : Reference) : (s.patch r).state.labels = s.labels := by
  obtain ⟨image, _, he⟩ := repatched_patch s r
  rw [he]

@[simp] theorem size_patch (s : State) (r : Reference) :
    (s.patch r).state.image.size = s.image.size := by
  obtain ⟨image, hsize, he⟩ := repatched_patch s r
  rw [he, hsize]

theorem getElem?_patch (h : ¬ r.Covers i) : (s.patch r).state.image[i]? = s.image[i]? := by
  cases hl : s.labels[r.label]? with
  | none => rw [patch_of_undefined hl]
  | some addr =>
    rw [patch_of_defined hl]
    simp only [Reference.Covers, not_or] at h
    rcases Nat.lt_or_ge i (r.offset + 1) with hlt | hge
    · exact Image.getElem?_place_of_lt hlt
    · have hnext := Image.next_place_le .overwrite s.image (r.offset + 1) (wordBytes addr)
      simp only [wordBytes, List.length_cons, List.length_nil] at hnext
      exact Image.getElem?_place_of_next_le (by simp only [wordBytes]; omega)

theorem getElem?_forEach_patch (h : ∀ r ∈ rs, ¬ r.Covers i) :
    (Outcome.forEach patch s rs).state.image[i]? = s.image[i]? := by
  apply Outcome.forEach_induction (P := fun t : State => t.image[i]? = s.image[i]?)
  · rfl
  · intro t r hr ht
    rw [getElem?_patch (h r hr), ht]

theorem getElem?_resolve (h : ∀ r ∈ s.references.toList, ¬ r.Covers i) :
    s.resolve.state.image[i]? = s.image[i]? :=
  getElem?_forEach_patch h

theorem patch_of_le {addr : Nat} (hl : s.labels[r.label]? = some addr)
    (hle : r.offset + 3 ≤ s.image.size) :
    (s.patch r).fault = none ∧ (s.patch r).state.Points r := by
  have hf : (s.image.place .overwrite (r.offset + 1) (wordBytes addr)).fault = none := by
    apply Image.fault_place_of_yields
    intro k hk
    have hlt : r.offset + 1 + k < s.image.size := by
      simp only [wordBytes, List.length_cons, List.length_nil] at hk
      omega
    exact ⟨_, Array.getElem?_eq_getElem hlt, Placement.overwrite_yields _⟩
  have hbyte : ∀ k < 2, (s.image.place .overwrite (r.offset + 1) (wordBytes addr)).image[
      r.offset + 1 + k]? = (wordBytes addr)[k]? := by
    intro k hk
    exact Image.getElem?_place_of_yields hf hk fun _ _ => Placement.overwrite_yields _
  rw [patch_of_defined hl]
  exact ⟨by rw [hf]; rfl, addr, hl, hbyte 0 (by decide), hbyte 1 (by decide)⟩

theorem fault_forEach_patch (h : ∀ r ∈ rs, r.offset + 3 ≤ s.image.size) :
    (Outcome.forEach patch s rs).fault =
      (rs.find? fun r => s.labels[r.label]?.isNone).map fun r => .undefinedLabel r.label := by
  induction rs generalizing s with
  | nil => rfl
  | cons r rs ih =>
    rw [Outcome.forEach_cons]
    cases hl : s.labels[r.label]? with
    | none =>
      rw [patch_of_undefined hl, List.find?_cons_of_pos (by simp [hl])]
      rfl
    | some addr =>
      obtain ⟨hf, _⟩ := patch_of_le hl (h r List.mem_cons_self)
      rw [Outcome.fault_andThen _ hf, ih, List.find?_cons_of_neg (by simp [hl]), labels_patch]
      intro q hq
      rw [size_patch]
      exact h q (List.mem_cons_of_mem r hq)

/-- References that do not overlap keep the targets they have been given. -/
theorem points_forEach_patch (hf : (Outcome.forEach patch s rs).fault = none)
    (hle : ∀ r ∈ rs, r.offset + 3 ≤ s.image.size)
    (hapart : rs.Pairwise fun r q => r.offset + 3 ≤ q.offset) :
    ∀ r ∈ rs, (Outcome.forEach patch s rs).state.Points r := by
  induction rs generalizing s with
  | nil => simp
  | cons r rs ih =>
    obtain ⟨hbehind, hrest⟩ := List.pairwise_cons.1 hapart
    obtain ⟨addr, hl⟩ := labels_of_forEach_patch hf r List.mem_cons_self
    obtain ⟨hfirst, addr', hl', hhigh, hlow⟩ := patch_of_le hl (hle r List.mem_cons_self)
    rw [Outcome.forEach_cons, Outcome.fault_andThen _ hfirst] at hf
    rw [Outcome.forEach_cons, Outcome.state_andThen _ hfirst]
    have htail := ih hf (by
      intro q hq
      rw [size_patch]
      exact hle q (List.mem_cons_of_mem r hq)) hrest
    intro q hq
    rcases List.mem_cons.1 hq with rfl | hq
    · obtain ⟨later, _, hlater⟩ := repatched_forEach_patch (s.patch q).state rs
      have hkept : ∀ i, q.Covers i → (Outcome.forEach patch (s.patch q).state rs).state.image[i]? =
          (s.patch q).state.image[i]? := by
        intro i hi
        apply getElem?_forEach_patch
        intro p hp hcover
        have hp := hbehind p hp
        simp only [Reference.Covers] at hi hcover
        omega
      refine ⟨addr', ?_, ?_, ?_⟩
      · rw [hlater]
        exact hl'
      · rw [hkept _ (.inl rfl), hhigh]
      · rw [hkept _ (.inr rfl), hlow]
    · exact htail q hq

theorem Tight.fault_resolve (h : s.Tight) (hle : s.code ≤ s.image.size) :
    s.resolve.fault = (s.references.toList.find? fun r => s.labels[r.label]?.isNone).map
      fun r => .undefinedLabel r.label := by
  apply fault_forEach_patch
  intro r hr
  exact Nat.le_trans (h.fits r hr) hle

theorem Tight.points_resolve (h : s.Tight) (hle : s.code ≤ s.image.size)
    (hf : s.resolve.fault = none) : s.resolve.state.Resolved := by
  obtain ⟨image, _, he⟩ := repatched_resolve s
  intro r hr
  rw [he] at hr
  exact points_forEach_patch hf (fun r hr => Nat.le_trans (h.fits r hr) hle) h.apart r hr

/-- Two states that differ at most in their texts and in the targets of their branches. -/
structure Alike (s t : State) : Prop where
  size : s.image.size = t.image.size
  code : s.code = t.code
  data : s.data = t.data
  labels : s.labels = t.labels
  references : s.references = t.references
  byte : ∀ i, (∀ r ∈ t.references.toList, ¬ r.Covers i) → s.image[i]? = t.image[i]?

theorem Alike.refl (s : State) : s.Alike s := ⟨rfl, rfl, rfl, rfl, rfl, fun _ _ => rfl⟩

theorem Alike.retext (h : s.Alike t) (text : Option (List Char)) :
    s.Alike { t with text := text } :=
  ⟨h.size, h.code, h.data, h.labels, h.references, h.byte⟩

theorem Alike.resolve (h : s.Alike t) : s.Alike t.resolve.state := by
  obtain ⟨image, hsize, he⟩ := repatched_resolve t
  have hbyte : ∀ i, (∀ r ∈ t.references.toList, ¬ r.Covers i) → s.image[i]? = image[i]? := by
    intro i hi
    have hkept := getElem?_resolve hi
    rw [he] at hkept
    rw [h.byte i hi, ← hkept]
  rw [he]
  exact ⟨h.size.trans hsize.symm, h.code, h.data, h.labels, h.references, hbyte⟩

theorem Tight.not_covers (h : t.Tight) (hi : t.code ≤ i) :
    ∀ r ∈ t.references.toList, ¬ r.Covers i := by
  intro r hr hcover
  have hfits := h.fits r hr
  simp only [Reference.Covers] at hcover
  omega

/-- As long as the data lie behind the code, an action does the same to states that differ in the
targets of branches only. -/
theorem Alike.perform (h : s.Alike t) (ht : t.Tight) (hdata : t.code ≤ t.data) (a : Action) :
    (s.perform a).fault = (t.perform a).fault ∧ (s.perform a).state.Alike (t.perform a).state := by
  have hsame : ∀ i, t.code ≤ i → s.image[i]? = t.image[i]? :=
    fun i hi => h.byte i (ht.not_covers hi)
  cases a with
  | define name =>
    rw [perform_define, perform_define, h.code, h.labels]
    exact ⟨rfl, h.size, rfl, h.data, rfl, h.references, h.byte⟩
  | complain token => exact ⟨rfl, h⟩
  | pad =>
    refine ⟨rfl, ?_, h.code, h.data, h.labels, h.references, ?_⟩
    · rw [perform_pad, perform_pad, Array.size_push, Array.size_push, h.size]
    · intro i hi
      rw [perform_pad, perform_pad, Array.getElem?_push, Array.getElem?_push, h.size, h.byte i hi]
  | emit p i =>
    obtain ⟨hnext, hfault, hbyte⟩ := Image.place_congr p i.draft h.size hsame
    rw [perform_emit, perform_emit, h.code, h.references, hfault]
    refine ⟨rfl, ?_, hnext, h.data, h.labels, rfl, ?_⟩
    · simp only [Image.size_place, h.size]
    · intro k hk
      rcases Nat.lt_or_ge k t.code with hlt | hge
      · rw [Image.getElem?_place_of_lt hlt, Image.getElem?_place_of_lt hlt]
        apply h.byte k
        intro r hr
        apply hk r
        have hrefs := references_perform t (.emit p i)
        rw [perform_emit] at hrefs
        rw [hrefs]
        exact List.mem_append_left _ hr
      · exact hbyte k hge
  | store p bytes =>
    obtain ⟨hnext, hfault, hbyte⟩ := Image.place_congr p bytes h.size
      fun i hi => hsame i (Nat.le_trans hdata hi)
    rw [perform_store, perform_store, h.data, hfault]
    refine ⟨rfl, ?_, h.code, hnext, h.labels, h.references, ?_⟩
    · simp only [Image.size_place, h.size]
    · intro k hk
      rcases Nat.lt_or_ge k t.data with hlt | hge
      · rw [Image.getElem?_place_of_lt hlt, Image.getElem?_place_of_lt hlt]
        exact h.byte k hk
      · exact hbyte k hge

theorem Alike.resolve_eq (h : s.Alike t) (ht : t.Tight) (hle : t.code ≤ t.image.size)
    (hp : t.Resolved) :
    s.resolve.fault = none ∧ t = { s.resolve.state with text := t.text } := by
  have hs : s.Tight := ⟨by rw [h.references, h.code]; exact ht.fits, by
    rw [h.references]; exact ht.apart⟩
  have hsle : s.code ≤ s.image.size := by
    rw [h.code, h.size]
    exact hle
  have hf : s.resolve.fault = none := by
    rw [hs.fault_resolve hsle, h.references, h.labels, Option.map_eq_none_iff, List.find?_eq_none]
    intro r hr
    obtain ⟨addr, hl, _⟩ := hp r hr
    simp [hl]
  refine ⟨hf, ?_⟩
  have hpoints := hs.points_resolve hsle hf
  obtain ⟨image, hsize, he⟩ := repatched_resolve s
  have himage : t.image = image := by
    apply Array.ext_getElem?
    intro i
    by_cases hcover : ∃ r ∈ t.references.toList, r.Covers i
    · obtain ⟨r, hr, hi⟩ := hcover
      obtain ⟨addr, hl, hhigh, hlow⟩ := hp r hr
      rw [he] at hpoints
      obtain ⟨addr', hl', hhigh', hlow'⟩ := hpoints r (by rw [h.references]; exact hr)
      simp only [h.labels, hl, Option.some.injEq] at hl'
      subst hl'
      rcases hi with rfl | rfl
      · exact hhigh.trans hhigh'.symm
      · exact hlow.trans hlow'.symm
    · have hout : ∀ r ∈ t.references.toList, ¬ r.Covers i := fun r hr hi => hcover ⟨r, hr, hi⟩
      have hkept : s.resolve.state.image[i]? = s.image[i]? :=
        getElem?_resolve (by rw [h.references]; exact hout)
      rw [he] at hkept
      rw [← h.byte i hout, ← hkept]
  rw [he, himage.symm, h.code, h.data, h.labels, h.references]

/-- A state that some actions have led to, with branches resolved in between as may be. While its code
ends below the data, the same actions without any resolving lead to a state that is alike. -/
structure Follows (s : State) (as : List Action) : Prop where
  records : s.Records as
  tight : s.Tight
  code_le : s.code ≤ s.image.size
  alike : s.code ≤ 0x8000 → (Outcome.forEach State.perform fresh as).fault = none ∧
    (Outcome.forEach State.perform fresh as).state.Alike s

variable {as bs : List Action} {a : Action}

theorem follows_fresh : fresh.Follows [] :=
  ⟨records_fresh, tight_fresh, Nat.zero_le _, fun _ => ⟨rfl, .refl fresh⟩⟩

theorem Follows.retext (h : s.Follows as) (text : Option (List Char)) :
    Follows { s with text := text } as :=
  ⟨h.records.retext text, h.tight.retext text, h.code_le,
    fun hcode => ⟨(h.alike hcode).1, (h.alike hcode).2.retext text⟩⟩

theorem Follows.resolve (h : s.Follows as) : s.resolve.state.Follows as := by
  have hpatched := repatched_resolve s
  refine ⟨hpatched.records h.records, h.tight.resolve, ?_, ?_⟩
  · obtain ⟨image, hsize, he⟩ := hpatched
    rw [he]
    exact hsize ▸ h.code_le
  · intro hcode
    obtain ⟨image, _, he⟩ := hpatched
    have hcode' : s.code ≤ 0x8000 := by rwa [he] at hcode
    exact ⟨(h.alike hcode').1, (h.alike hcode').2.resolve⟩

theorem Records.data_ge (h : s.Records as) : 0x8000 ≤ s.data := by
  rw [h.data]
  exact Nat.le_add_right _ _

theorem Follows.perform (h : s.Follows as) (hf : (s.perform a).fault = none) :
    (s.perform a).state.Follows (as ++ [a]) := by
  have hmono := (ends_le_perform s a).1
  refine ⟨h.records.perform hf, h.tight.perform hf, (ends_perform_le_size s a).1 h.code_le, ?_⟩
  intro hcode
  have hdata := h.records.data_ge
  obtain ⟨hfront, halike⟩ := h.alike (by omega)
  obtain ⟨hfault, hnext⟩ := halike.perform h.tight (by omega) a
  rw [Outcome.forEach_append, Outcome.fault_andThen _ hfront, Outcome.state_andThen _ hfront,
    Outcome.forEach_singleton, hfault]
  exact ⟨hf, hnext⟩

theorem Follows.forEach (h : s.Follows as)
    (hf : (Outcome.forEach State.perform s bs).fault = none) :
    (Outcome.forEach State.perform s bs).state.Follows (as ++ bs) :=
  Outcome.forEach_trace Follows as h (fun h hf => h.perform hf) hf

theorem Follows.fault_perform (h : s.Follows as) (hfits : Layout.Fits (as ++ [a])) :
    (s.perform a).fault = none := by
  have hcode := hfits.code
  have hdata := hfits.data
  simp only [Layout.draft_append, Layout.draft_cons, Layout.draft_nil, List.append_nil] at hcode
  simp only [Layout.data_append, Layout.data_cons, Layout.data_nil, List.append_nil] at hdata
  have hend := h.records.code
  have hge := h.records.data_ge
  rw [List.length_append] at hcode
  obtain ⟨hf, halike⟩ := h.alike (by omega)
  obtain ⟨hfault, _⟩ := halike.perform h.tight (by omega) a
  have hsize : 0x10000 ≤ (Outcome.forEach State.perform fresh as).state.image.size := by
    rw [halike.size, h.records.size]
    exact Nat.le_add_right _ _
  rw [← hfault]
  apply (shows_fresh.forEach hf).fault_perform hsize
  · simpa using hcode
  · simpa using hdata

theorem Follows.fault_forEach (h : s.Follows as) (hfits : Layout.Fits (as ++ bs)) :
    (Outcome.forEach State.perform s bs).fault = none := by
  induction bs generalizing s as with
  | nil => rfl
  | cons a bs ih =>
    rw [List.append_cons] at hfits
    have hf := h.fault_perform hfits.front
    rw [Outcome.forEach_cons, Outcome.fault_andThen _ hf]
    exact ih (h.perform hf) hfits

theorem actions_of_program {text : List Char} (hf : (s.withText text).program.fault = none) :
    ∃ bs, HasActions (statements text) bs := by
  obtain ⟨left, he, _⟩ := program_withText s text
  rw [he] at hf
  exact exists_actions hf

theorem program_of_actions {text : List Char} (hbs : HasActions (statements text) bs) (s : State) :
    ∃ left, (s.withText text).program =
      (Outcome.forEach State.perform s bs).retext (some left) := by
  obtain ⟨left, he, _⟩ := program_withText s text
  rw [forEach_execute_of_actions hbs] at he
  exact ⟨left, he⟩

theorem Follows.program (h : s.Follows as) {text : List Char}
    (hbs : HasActions (statements text) bs) (hf : (s.withText text).program.fault = none) :
    (s.withText text).program.state.Follows (as ++ bs) := by
  obtain ⟨left, he⟩ := program_of_actions hbs s
  rw [he] at hf ⊢
  exact (h.forEach hf).retext (some left)

theorem Follows.fault_program (h : s.Follows as) {text : List Char}
    (hbs : HasActions (statements text) bs) (hfits : Layout.Fits (as ++ bs)) :
    (s.withText text).program.fault = none := by
  obtain ⟨left, he⟩ := program_of_actions hbs s
  rw [he]
  exact h.fault_forEach hfits

/-- Resolving stops at the first branch whose label has no definition among the actions. -/
theorem Follows.fault_resolve (h : s.Follows as) :
    s.resolve.fault = (Layout.undefined? as).map fun r => .undefinedLabel r.label := by
  rw [h.tight.fault_resolve h.code_le, h.records.references, Layout.undefined?]
  simp only [h.records.labels]

theorem Follows.resolved (h : s.Follows as) (hf : s.resolve.fault = none) :
    s.resolve.state.Resolved :=
  h.tight.points_resolve h.code_le hf

/-- When the branches have their targets, the state is the one that comes of reading all texts first
and resolving once. -/
theorem Follows.eq_resolve (h : s.Follows as) (hp : s.Resolved) (hcode : s.code ≤ 0x8000)
    {texts : List (List Char)} (has : HasActions (texts.flatMap statements) as) :
    ((fresh.programs texts).andThen State.resolve).fault = none ∧
      s = { ((fresh.programs texts).andThen State.resolve).state with text := s.text } := by
  obtain ⟨hf, halike⟩ := h.alike hcode
  obtain ⟨left, he⟩ := programs_eq fresh texts
  rw [forEach_execute_of_actions has] at he
  have hprograms : (fresh.programs texts).fault = none := by
    rw [he]
    exact hf
  have hsame : (fresh.programs texts).state.Alike s := by
    rw [he]
    exact ⟨halike.size, halike.code, halike.data, halike.labels, halike.references, halike.byte⟩
  rw [Outcome.fault_andThen _ hprograms, Outcome.state_andThen _ hprograms]
  exact hsame.resolve_eq h.tight h.code_le hp

def resolveTimes (s : State) : Nat → State
  | 0 => s
  | n + 1 => (s.resolveTimes n).resolve.state

/-- Assemble several texts one after the other, and resolve a number of times before each. -/
def programsResolving (s : State) (plan : List (Nat × List Char)) : Outcome State :=
  Outcome.forEach (fun s p => ((s.resolveTimes p.1).withText p.2).program) s plan

theorem programsResolving_cons (s : State) (n : Nat) (text : List Char)
    (plan : List (Nat × List Char)) : s.programsResolving ((n, text) :: plan) =
      ((s.resolveTimes n).withText text).program.andThen (·.programsResolving plan) :=
  Outcome.forEach_cons ..

theorem Follows.resolveTimes (h : s.Follows as) (n : Nat) : (s.resolveTimes n).Follows as := by
  induction n with
  | zero => exact h
  | succ n ih => exact ih.resolve

theorem Follows.programsResolving (h : s.Follows as) {plan : List (Nat × List Char)}
    (hf : (s.programsResolving plan).fault = none) :
    ∃ bs, HasActions ((plan.map Prod.snd).flatMap statements) bs ∧
      (s.programsResolving plan).state.Follows (as ++ bs) := by
  induction plan generalizing s as with
  | nil => exact ⟨[], .nil, by simpa [State.programsResolving] using h⟩
  | cons p plan ih =>
    obtain ⟨n, text⟩ := p
    rw [programsResolving_cons] at hf ⊢
    obtain ⟨hfirst, hrest⟩ := Outcome.fault_andThen_eq_none_iff.1 hf
    obtain ⟨bs, hbs⟩ := actions_of_program hfirst
    obtain ⟨cs, hcs, hfollows⟩ := ih ((h.resolveTimes n).program hbs hfirst) hrest
    refine ⟨bs ++ cs, List.rel_append hbs hcs, ?_⟩
    rw [Outcome.state_andThen _ hfirst, ← List.append_assoc]
    exact hfollows

theorem Follows.programsResolving_of_actions (h : s.Follows as) {plan : List (Nat × List Char)}
    {bss : List (List Action)}
    (hbss : List.Forall₂ (fun p bs => HasActions (statements p.2) bs) plan bss)
    (hfits : Layout.Fits (as ++ bss.flatten)) :
    (s.programsResolving plan).fault = none ∧
      (s.programsResolving plan).state.Follows (as ++ bss.flatten) := by
  induction hbss generalizing s as with
  | nil => exact ⟨rfl, by simpa [State.programsResolving] using h⟩
  | @cons p bs plan bss hbs _ ih =>
    obtain ⟨n, text⟩ := p
    rw [List.flatten_cons, ← List.append_assoc] at hfits ⊢
    have hfirst := (h.resolveTimes n).fault_program hbs hfits.front
    rw [programsResolving_cons, Outcome.fault_andThen _ hfirst, Outcome.state_andThen _ hfirst]
    exact ih ((h.resolveTimes n).program hbs hfirst) hfits

theorem Follows.resolve_of_actions (h : s.Follows as) {plan : List (Nat × List Char)}
    {bss : List (List Action)}
    (hbss : List.Forall₂ (fun p bs => HasActions (statements p.2) bs) plan bss)
    (hfits : Layout.Fits (as ++ bss.flatten)) (hdef : Layout.undefined? (as ++ bss.flatten) = none)
    (last : Nat) :
    let o := (s.programsResolving plan).andThen fun s => (s.resolveTimes last).resolve
    o.fault = none ∧ o.state.Follows (as ++ bss.flatten) := by
  intro o
  obtain ⟨hf, hend⟩ := h.programsResolving_of_actions hbss hfits
  have hlast := (hend.resolveTimes last).fault_resolve
  rw [hdef] at hlast
  refine ⟨Outcome.fault_andThen_eq_none_iff.2 ⟨hf, hlast⟩, ?_⟩
  rw [Outcome.state_andThen _ hf]
  exact (hend.resolveTimes last).resolve

end State

end ByteAsm
