import ByteAsm.Proofs.Resolution

/-! Resolving a second time. A resolution gives a byte of the image a value that does not depend on the
image, or leaves it as it was, and where it stops depends on the labels and on the size of the image
only. The second one finds every byte as the first has left it, also when the references overlap, lie
outside the image or lead to labels that are not defined. -/
namespace ByteAsm

namespace Image

/-- A change of all images of one size that gives each byte a value which does not depend on the image,
or leaves it as it was. -/
structure Settles (size : Nat) (f : Image → Image) : Prop where
  size_eq : ∀ image : Image, image.size = size → (f image).size = size
  byte : ∀ i : Nat, (∀ image : Image, image.size = size → (f image)[i]? = image[i]?) ∨
    ∃ b : Option UInt8, ∀ image : Image, image.size = size → (f image)[i]? = b

variable {size : Nat} {f g : Image → Image} {image : Image}

theorem settles_id (size : Nat) : Settles size id :=
  ⟨fun _ h => h, fun _ => .inl fun _ _ => rfl⟩

theorem settles_set (size addr : Nat) (b : UInt8) : Settles size (·.setIfInBounds addr b) where
  size_eq := by
    intro image h
    simpa using h
  byte := by
    intro i
    by_cases hi : addr = i
    · refine .inr ⟨if addr < size then some b else none, ?_⟩
      intro image h
      subst hi
      simp [Array.getElem?_setIfInBounds, h]
    · exact .inl fun image _ => by simp [hi]

theorem Settles.comp (hg : Settles size g) (hf : Settles size f) : Settles size (g ∘ f) where
  size_eq := fun image h => hg.size_eq _ (hf.size_eq image h)
  byte := by
    intro i
    rcases hg.byte i with hkeep | ⟨b, hb⟩
    · rcases hf.byte i with hkeep' | ⟨b, hb⟩
      · exact .inl fun image h => (hkeep _ (hf.size_eq image h)).trans (hkeep' image h)
      · exact .inr ⟨b, fun image h => (hkeep _ (hf.size_eq image h)).trans (hb image h)⟩
    · exact .inr ⟨b, fun image h => hb _ (hf.size_eq image h)⟩

theorem Settles.twice (hf : Settles size f) (h : image.size = size) : f (f image) = f image := by
  apply Array.ext_getElem?
  intro i
  have hnext := hf.size_eq image h
  rcases hf.byte i with hkeep | ⟨b, hb⟩
  · exact hkeep _ hnext
  · rw [hb _ hnext, hb _ h]

theorem exists_settles_place (size addr : Nat) (bs : List UInt8) :
    ∃ f next fault, Settles size f ∧
      ∀ image : Image, image.size = size → image.place .overwrite addr bs = ⟨f image, next, fault⟩ := by
  induction bs generalizing addr with
  | nil => exact ⟨id, addr, none, settles_id size, fun _ _ => rfl⟩
  | cons b bs ih =>
    rcases Nat.lt_or_ge addr size with hlt | hge
    · obtain ⟨f, next, fault, hf, hplace⟩ := ih (addr + 1)
      refine ⟨f ∘ (·.setIfInBounds addr b), next, fault, hf.comp (settles_set size addr b), ?_⟩
      intro image h
      have hin : addr < image.size := h ▸ hlt
      have hset : image.setIfInBounds addr b = image.set addr b := by
        simp [Array.setIfInBounds, hin]
      rw [place_cons_some hin rfl, hplace _ (by simpa using h), Function.comp_apply, hset]
    · refine ⟨id, addr, some .outside, settles_id size, ?_⟩
      intro image h
      exact place_cons_outside (h ▸ hge)

end Image

namespace State

/-- An operation that settles the image of a state: whatever image of this size the state has, the
operation reports the same, meets the same fault and changes nothing but the image. -/
def Settling (operation : State → Outcome State) (s : State) : Prop :=
  ∃ f notices fault, Image.Settles s.image.size f ∧
    ∀ image : Image, image.size = s.image.size →
      operation { s with image := image } = ⟨{ s with image := f image }, notices, fault⟩

variable {operation next : State → Outcome State} {s : State}

theorem Settling.andThen (h : Settling operation s) (hnext : Settling next s) :
    Settling (fun s => (operation s).andThen next) s := by
  obtain ⟨f, notices, fault, hf, hoperation⟩ := h
  cases fault with
  | some e =>
    refine ⟨f, notices, some e, hf, ?_⟩
    intro image hsize
    simp only [hoperation image hsize, Outcome.andThen]
  | none =>
    obtain ⟨g, later, fault, hg, hlast⟩ := hnext
    refine ⟨g ∘ f, notices ++ later, fault, hg.comp hf, ?_⟩
    intro image hsize
    simp only [hoperation image hsize, Outcome.andThen, hlast _ (hf.size_eq image hsize),
      Outcome.after, Function.comp_apply]

theorem Settling.twice (h : Settling operation s) : operation (operation s).state = operation s := by
  obtain ⟨f, notices, fault, hf, hoperation⟩ := h
  have hfirst : operation s = ⟨{ s with image := f s.image }, notices, fault⟩ :=
    hoperation s.image rfl
  have hsecond := hoperation (f s.image) (hf.size_eq _ rfl)
  rw [hf.twice rfl] at hsecond
  rw [hfirst]
  exact hsecond

theorem settling_patch (s : State) (r : Reference) : Settling (·.patch r) s := by
  cases hl : s.labels[r.label]? with
  | none =>
    refine ⟨id, [], some (.undefinedLabel r.label), Image.settles_id _, ?_⟩
    intro image _
    exact patch_of_undefined hl
  | some addr =>
    obtain ⟨f, next, fault, hf, hplace⟩ :=
      Image.exists_settles_place s.image.size (r.offset + 1) (wordBytes addr)
    refine ⟨f, [.branchResolved r.label r.offset addr], fault.map .image, hf, ?_⟩
    intro image hsize
    have hpatch := @patch_of_defined { s with image := image } r addr hl
    rw [hplace image hsize] at hpatch
    exact hpatch

/-- The references are patched in order, and each patch settles its two bytes. -/
theorem settling_forEach_patch (s : State) (rs : List Reference) :
    Settling (fun s => Outcome.forEach patch s rs) s := by
  induction rs with
  | nil => exact ⟨id, [], none, Image.settles_id _, fun _ _ => rfl⟩
  | cons r rs ih =>
    have h := (settling_patch s r).andThen ih
    simpa only [Outcome.forEach_cons] using h

/-- Resolving a second time does and reports the same as the first time, and changes nothing. -/
theorem resolve_resolve (s : State) : s.resolve.state.resolve = s.resolve := by
  obtain ⟨image, _, hstate⟩ := repatched_resolve s
  have hrefs : s.resolve.state.references = s.references := by rw [hstate]
  have htwice := (settling_forEach_patch s s.references.toList).twice
  rw [State.resolve, hrefs]
  exact htwice

end State

end ByteAsm
