import ByteAsm.Image

/-! What the placing of bytes does to an image. No byte changes outside the stretch from the
first address to the one behind the last byte placed, whether or not a fault stops the placing,
and on zero bytes exactly the given bytes are stored. -/
namespace ByteAsm

/-- A byte that gives way: whatever is placed on it is what the image then holds. -/
def Placement.Yields (p : Placement) (old : UInt8) : Prop := ∀ b, p.combine? old b = some b

theorem Placement.yields_zero (p : Placement) : p.Yields 0 := by
  intro b
  cases p with
  | add => simp [combine?, b.toNat_lt]
  | overwrite => rfl

theorem Placement.overwrite_yields (old : UInt8) : overwrite.Yields old := fun _ => rfl

namespace Image

variable {p : Placement} {image : Image} {addr i k : Nat} {bs : List UInt8}

/-- The first byte is stored and the rest placed behind it, or nothing happens but a fault. -/
theorem place_cons_cases (p : Placement) (image : Image) (addr : Nat) (b : UInt8)
    (bs : List UInt8) :
    (∃ h : addr < image.size, ∃ v, p.combine? image[addr] b = some v ∧
      place p image addr (b :: bs) = place p (image.set addr v) (addr + 1) bs) ∨
    ∃ f, place p image addr (b :: bs) = ⟨image, addr, some f⟩ := by
  by_cases h : addr < image.size
  · cases hv : p.combine? image[addr] b with
    | some v => exact .inl ⟨h, v, hv, place_cons_some h hv⟩
    | none => exact .inr ⟨_, place_cons_overflow h hv⟩
  · exact .inr ⟨_, place_cons_outside (Nat.le_of_not_lt h)⟩

theorem next_place_le_size (h : addr ≤ image.size) :
    (place p image addr bs).next ≤ image.size := by
  induction bs generalizing image addr with
  | nil => exact h
  | cons b bs ih =>
    rcases place_cons_cases p image addr b bs with ⟨hlt, v, _, he⟩ | ⟨f, he⟩
    · have hi := @ih (image.set addr v) (addr + 1) (by rw [Array.size_set]; exact hlt)
      rw [he]
      simpa using hi
    · rw [he]
      exact h

theorem getElem?_place_of_lt (h : i < addr) :
    (place p image addr bs).image[i]? = image[i]? := by
  induction bs generalizing image addr with
  | nil => rfl
  | cons b bs ih =>
    rcases place_cons_cases p image addr b bs with ⟨hlt, v, _, he⟩ | ⟨f, he⟩
    · rw [he, ih (by omega), Array.getElem?_set_ne hlt (by omega)]
    · rw [he]

theorem getElem?_place_of_next_le (h : (place p image addr bs).next ≤ i) :
    (place p image addr bs).image[i]? = image[i]? := by
  induction bs generalizing image addr with
  | nil => rfl
  | cons b bs ih =>
    rcases place_cons_cases p image addr b bs with ⟨hlt, v, _, he⟩ | ⟨f, he⟩
    · rw [he] at h ⊢
      have hle := le_next_place p (image.set addr v) (addr + 1) bs
      rw [ih h, Array.getElem?_set_ne hlt (by omega)]
    · rw [he]

/-- What is placed on bytes that give way is what the image then holds. -/
theorem getElem?_place_of_yields (hf : (place p image addr bs).fault = none) (hk : k < bs.length)
    (hy : ∀ old, image[addr + k]? = some old → p.Yields old) :
    (place p image addr bs).image[addr + k]? = bs[k]? := by
  induction bs generalizing image addr k with
  | nil => simp at hk
  | cons b bs ih =>
    rcases place_cons_cases p image addr b bs with ⟨hlt, v, hv, he⟩ | ⟨f, he⟩
    · rw [he] at hf ⊢
      cases k with
      | zero =>
        have hb := hy image[addr] (by simp [hlt]) b
        rw [getElem?_place_of_lt (by omega)]
        simp_all
      | succ k =>
        have hstep : addr + (k + 1) = addr + 1 + k := by omega
        rw [hstep, List.getElem?_cons_succ]
        apply ih hf (Nat.lt_of_succ_lt_succ hk)
        intro old hold
        rw [Array.getElem?_set_ne hlt (by omega), ← hstep] at hold
        exact hy old hold
    · rw [he] at hf
      cases hf

theorem fault_place_of_yields
    (hy : ∀ k < bs.length, ∃ old, image[addr + k]? = some old ∧ p.Yields old) :
    (place p image addr bs).fault = none := by
  induction bs generalizing image addr with
  | nil => rfl
  | cons b bs ih =>
    obtain ⟨old, hold, hyield⟩ := hy 0 (by simp)
    obtain ⟨hlt, hold⟩ := Array.getElem?_eq_some_iff.1 hold
    simp only [Nat.add_zero] at hlt hold
    rw [place_cons_some hlt (hold ▸ hyield b)]
    apply ih
    intro k hk
    obtain ⟨old, hold, hyield⟩ := hy (k + 1) (by simpa using hk)
    refine ⟨old, ?_, hyield⟩
    rw [Array.getElem?_set_ne hlt (by omega), ← hold]
    congr 1
    omega

theorem getElem?_place_outside (hf : (place p image addr bs).fault = none)
    (h : i < addr ∨ addr + bs.length ≤ i) : (place p image addr bs).image[i]? = image[i]? := by
  rcases h with hlt | hge
  · exact getElem?_place_of_lt hlt
  · exact getElem?_place_of_next_le (by rw [next_place_of_fault_none hf]; exact hge)

/-- An image holds some bytes from an address on, and all else of an old image. -/
structure Holds (old image : Image) (addr : Nat) (bytes : List UInt8) : Prop where
  size : image.size = old.size
  stored : ∀ k < bytes.length, image[addr + k]? = bytes[k]?
  kept : ∀ i, i < addr ∨ addr + bytes.length ≤ i → image[i]? = old[i]?

/-- On zeros all bytes are placed, as they are. -/
theorem place_on_zeros (p : Placement) (hzero : ∀ k < bs.length, image[addr + k]? = some 0) :
    (place p image addr bs).fault = none ∧ (place p image addr bs).next = addr + bs.length ∧
      Holds image (place p image addr bs).image addr bs := by
  have hf : (place p image addr bs).fault = none :=
    fault_place_of_yields fun k hk => ⟨0, hzero k hk, p.yields_zero⟩
  refine ⟨hf, next_place_of_fault_none hf, size_place .., ?_, fun i hi => getElem?_place_outside hf hi⟩
  intro k hk
  apply getElem?_place_of_yields hf hk
  intro old hold
  rw [hzero k hk] at hold
  cases hold
  exact p.yields_zero

theorem getElem?_place_cases {i : Nat} {b : UInt8}
    (h : (image.place p addr bs).image[i]? = some b) :
    image[i]? = some b ∨ addr ≤ i ∧ i < (image.place p addr bs).next := by
  rcases Nat.lt_or_ge i addr with hlt | hge
  · rw [getElem?_place_of_lt hlt] at h
    exact .inl h
  · rcases Nat.lt_or_ge i (image.place p addr bs).next with hin | hout
    · exact .inr ⟨hge, hin⟩
    · rw [getElem?_place_of_next_le hout] at h
      exact .inl h

/-- An image that shows two stretches of bytes, `xs` from address `a` on and `ys` from `b` on, and
has all else from an old image. An address in both of the stretches is left open. -/
structure Overlay (old image : Image) (a : Nat) (xs : List UInt8) (b : Nat) (ys : List UInt8) :
    Prop where
  left : ∀ i, a ≤ i → i < a + xs.length → i < b ∨ b + ys.length ≤ i → image[i]? = xs[i - a]?
  right : ∀ i, b ≤ i → i < b + ys.length → i < a ∨ a + xs.length ≤ i → image[i]? = ys[i - b]?
  rest : ∀ i < old.size, i < a ∨ a + xs.length ≤ i → i < b ∨ b + ys.length ≤ i →
    image[i]? = old[i]?

variable {old : Image} {a b : Nat} {xs ys : List UInt8}

theorem Overlay.symm (h : Overlay old image a xs b ys) : Overlay old image b ys a xs :=
  ⟨h.right, h.left, fun i hi hb ha => h.rest i hi ha hb⟩

theorem Overlay.getElem?_add (h : Overlay old image a xs b ys) {i : Nat} (hi : i < xs.length)
    (hout : a + i < b ∨ b + ys.length ≤ a + i) : image[a + i]? = xs[i]? := by
  rw [h.left _ (Nat.le_add_right a i) (Nat.add_lt_add_left hi a) hout, Nat.add_sub_cancel_left]

/-- Bytes placed behind a stretch, on zeros of the old image, make it longer. -/
theorem Overlay.place (h : Overlay old image a xs b ys)
    (hf : (image.place p (a + xs.length) bs).fault = none)
    (hzero : ∀ k < bs.length, old[a + xs.length + k]? = some 0) :
    Overlay old (image.place p (a + xs.length) bs).image a (xs ++ bs) b ys := by
  constructor
  · intro i hge hlt hout
    rw [List.length_append] at hlt
    rcases Nat.lt_or_ge i (a + xs.length) with hold | hnew
    · rw [getElem?_place_of_lt hold, h.left i hge hold hout, List.getElem?_append_left (by omega)]
    · obtain ⟨k, rfl⟩ : ∃ k, i = a + xs.length + k := ⟨i - (a + xs.length), by omega⟩
      have hk : k < bs.length := by omega
      obtain ⟨hsize, _⟩ := Array.getElem?_eq_some_iff.1 (hzero k hk)
      have hnow := (h.rest _ hsize (by omega) hout).trans (hzero k hk)
      rw [getElem?_place_of_yields hf hk
        (by intro byte ho; rw [hnow] at ho; cases ho; exact p.yields_zero),
        List.getElem?_append_right (by omega)]
      congr 1
      omega
  · intro i hge hlt hout
    rw [List.length_append] at hout
    rw [getElem?_place_outside hf (by omega), h.right i hge hlt (by omega)]
  · intro i hi hx hy
    rw [List.length_append] at hx
    rw [getElem?_place_outside hf (by omega), h.rest i hi (by omega) hy]

theorem Overlay.fault_place (h : Overlay old image a xs b ys)
    (hzero : ∀ k < bs.length, old[a + xs.length + k]? = some 0)
    (hout : ∀ k < bs.length, a + xs.length + k < b ∨ b + ys.length ≤ a + xs.length + k) :
    (image.place p (a + xs.length) bs).fault = none := by
  apply fault_place_of_yields
  intro k hk
  obtain ⟨hsize, _⟩ := Array.getElem?_eq_some_iff.1 (hzero k hk)
  refine ⟨0, ?_, p.yields_zero⟩
  exact (h.rest _ hsize (.inr (by omega)) (hout k hk)).trans (hzero k hk)

theorem Overlay.push (h : Overlay old image a xs b ys) : Overlay old (image.push 0) a xs b ys := by
  have hsame : ∀ {i : Nat} {byte : Option UInt8}, byte.isSome → image[i]? = byte →
      (image.push 0)[i]? = byte := by
    intro i byte hbyte he
    obtain ⟨v, rfl⟩ := Option.isSome_iff_exists.1 hbyte
    obtain ⟨hi, _⟩ := Array.getElem?_eq_some_iff.1 he
    rw [Array.getElem?_push, if_neg (by omega), he]
  constructor
  · intro i hge hlt hout
    exact hsame (by simp; omega) (h.left i hge hlt hout)
  · intro i hge hlt hout
    exact hsame (by simp; omega) (h.right i hge hlt hout)
  · intro i hi hx hy
    exact hsame (by simp [hi]) (h.rest i hi hx hy)

/-- An image that shows two stretches of bytes, `xs` from address `a` on and `ys` from `b` on. An
address in both of them is left open, and all else is zero. -/
structure Shows (image : Image) (a : Nat) (xs : List UInt8) (b : Nat) (ys : List UInt8) : Prop where
  left_le : a + xs.length ≤ image.size
  right_le : b + ys.length ≤ image.size
  left : ∀ i, a ≤ i → i < a + xs.length → i < b ∨ b + ys.length ≤ i → image[i]? = xs[i - a]?
  right : ∀ i, b ≤ i → i < b + ys.length → i < a ∨ a + xs.length ≤ i → image[i]? = ys[i - b]?
  zero : ∀ i < image.size, i < a ∨ a + xs.length ≤ i → i < b ∨ b + ys.length ≤ i →
    image[i]? = some 0

theorem Shows.symm (h : image.Shows a xs b ys) : image.Shows b ys a xs :=
  ⟨h.right_le, h.left_le, h.right, h.left, fun i hi hb ha => h.zero i hi ha hb⟩

theorem Shows.overlay (h : image.Shows a xs b ys) :
    Overlay (Array.replicate image.size 0) image a xs b ys where
  left := h.left
  right := h.right
  rest := by
    intro i hi hx hy
    rw [Array.size_replicate] at hi
    rw [h.zero i hi hx hy]
    simp [hi]

/-- Bytes placed behind a stretch make it longer. -/
theorem Shows.place (h : image.Shows a xs b ys)
    (hf : (image.place p (a + xs.length) bs).fault = none) :
    (image.place p (a + xs.length) bs).image.Shows a (xs ++ bs) b ys := by
  have hle : (image.place p (a + xs.length) bs).next ≤ image.size := next_place_le_size h.left_le
  rw [next_place_of_fault_none hf] at hle
  have hover := h.overlay.place hf (by
    intro k hk
    rw [Array.getElem?_replicate, if_pos (by omega)])
  refine ⟨?_, ?_, hover.left, hover.right, ?_⟩
  · rw [List.length_append, size_place]
    omega
  · rw [size_place]
    exact h.right_le
  · intro i hi hx hy
    rw [size_place] at hi
    rw [hover.rest i (by simpa using hi) hx hy]
    simp [hi]

theorem Shows.push (h : image.Shows a xs b ys) : Shows (image.push 0) a xs b ys := by
  have hx := h.left_le
  have hy := h.right_le
  refine ⟨?_, ?_, h.overlay.push.left, h.overlay.push.right, ?_⟩
  · rw [Array.size_push]
    omega
  · rw [Array.size_push]
    omega
  · intro i hi hx hy
    rw [Array.size_push] at hi
    rcases Nat.lt_or_ge i image.size with hlt | hge
    · rw [h.overlay.push.rest i (by simpa using hlt) hx hy]
      simp [hlt]
    · rw [Array.getElem?_push, if_pos (by omega)]

theorem Shows.fault_place (h : image.Shows a xs b ys)
    (hsize : a + xs.length + bs.length ≤ image.size)
    (hout : a + xs.length + bs.length ≤ b ∨ b + ys.length ≤ a + xs.length) :
    (image.place p (a + xs.length) bs).fault = none := by
  apply h.overlay.fault_place
  · intro k hk
    rw [Array.getElem?_replicate, if_pos (by omega)]
  · omega

theorem Shows.overwrite {front old new back : List UInt8}
    (h : image.Shows a (front ++ (old ++ back)) b ys) (hlen : old.length = new.length) :
    (image.place .overwrite (a + front.length) new).fault = none ∧
      (image.place .overwrite (a + front.length) new).image.Shows a (front ++ (new ++ back)) b ys := by
  have hle := h.left_le
  simp only [List.length_append] at hle
  have hf : (image.place .overwrite (a + front.length) new).fault = none := by
    apply fault_place_of_yields
    intro k hk
    have hlt : a + front.length + k < image.size := by omega
    exact ⟨_, Array.getElem?_eq_getElem hlt, Placement.overwrite_yields _⟩
  have hsame : (front ++ (new ++ back)).length = (front ++ (old ++ back)).length := by
    simp [hlen]
  refine ⟨hf, ?_⟩
  constructor
  · rw [hsame, size_place]
    exact h.left_le
  · rw [size_place]
    exact h.right_le
  · intro i hge hlt hout
    rw [hsame] at hlt
    have hb := h.left i hge hlt hout
    rcases Nat.lt_or_ge i (a + front.length) with hbefore | hin
    · rw [getElem?_place_of_lt hbefore, hb, List.getElem?_append_left (by omega),
        List.getElem?_append_left (by omega)]
    · rw [List.getElem?_append_right (by omega)] at hb ⊢
      rcases Nat.lt_or_ge i (a + front.length + new.length) with hnew | hbehind
      · obtain ⟨k, rfl⟩ : ∃ k, i = a + front.length + k := ⟨i - (a + front.length), by omega⟩
        rw [getElem?_place_of_yields hf (by omega) fun _ _ => Placement.overwrite_yields _,
          List.getElem?_append_left (by omega)]
        congr 1
        omega
      · rw [getElem?_place_outside hf (.inr hbehind), hb, List.getElem?_append_right (by omega),
          List.getElem?_append_right (by omega), hlen]
  · intro i hge hlt hout
    rw [hsame] at hout
    have hkeep := h.right i hge hlt hout
    simp only [List.length_append] at hout
    rw [getElem?_place_outside hf (by omega), hkeep]
  · intro i hi hx hy
    rw [size_place] at hi
    rw [hsame] at hx
    have hkeep := h.zero i hi hx hy
    simp only [List.length_append] at hx
    rw [getElem?_place_outside hf (by omega), hkeep]

end Image

end ByteAsm
