import ByteAsm.Text.Digit
import ByteAsm.Text.Hex
import ByteAsm.Text.Space
import ByteAsm.Text.Word

/-! How the kinds of characters lie to each other: white space is apart from digits and from word
characters, and names and hexadecimal numbers are made of word characters. -/
namespace ByteAsm.Text

theorem of_ascii {p : Char → Prop} (h : ∀ n < 0x80, p (Char.ofNat n)) {c : Char}
    (hc : c.toNat < 0x80) : p c := by
  have := h c.toNat hc
  rwa [Char.ofNat_toNat] at this

theorem Ranges.not_covers {rs qs : Ranges} (h : ∀ r ∈ rs, ∀ q ∈ qs, r.2 < q.1 ∨ q.2 < r.1)
    {c : Char} (hc : rs.covers c = true) : qs.covers c = false := by
  obtain ⟨r, hr, hlow, hhigh⟩ := covers_iff.1 hc
  apply Bool.eq_false_iff.2
  intro hq
  obtain ⟨q, hq, hl, hu⟩ := covers_iff.1 hq
  rcases h r hr q hq with hlt | hlt <;> omega

theorem isWord_of_isSpace {c : Char} (h : isSpace c = true) : isWord c = false := by
  by_cases hc : c.toNat < 0x80
  · exact of_ascii (p := fun c => isSpace c = true → isWord c = false) (by decide +kernel) hc h
  · rw [isWord, if_neg hc]
    exact Ranges.not_covers (by decide +kernel) h

theorem isWord_of_isHexDigit {c : Char} (h : isHexDigit c = true) : isWord c = true := by
  have hc : c.toNat < 0x80 := by
    simp only [isHexDigit, hexDigitValue?] at h
    split at h
    · omega
    · split at h
      · omega
      · split at h
        · omega
        · cases h
  exact of_ascii (p := fun c => isHexDigit c = true → isWord c = true) (by decide +kernel) hc h

theorem isSpace_of_isDigit {c : Char} (h : isDigit c = true) : isSpace c = false := by
  obtain ⟨n, hn⟩ := Option.isSome_iff_exists.1 h
  obtain ⟨z, hz, hrange⟩ := List.exists_of_findSome?_eq_some hn
  have hc : z ≤ c.toNat ∧ c.toNat < z + 10 := by
    split at hrange
    · assumption
    · cases hrange
  have hapart : ∀ z ∈ digitZeros, ∀ r ∈ spaceRanges, r.2 < z ∨ z + 10 ≤ r.1 := by decide +kernel
  apply Bool.eq_false_iff.2
  intro hs
  obtain ⟨r, hr, hlow, hhigh⟩ := Ranges.covers_iff.1 hs
  rcases hapart z hz r hr with hlt | hlt <;> omega

theorem isWord_of_isNameStart {c : Char} (h : isNameStart c = true) : isWord c = true := by
  have hc : c.toNat < 0x80 := by
    rcases Bool.or_eq_true_iff.1 h with halpha | hline
    · rcases Bool.or_eq_true_iff.1 halpha with hupper | hlower
      · exact Nat.lt_of_le_of_lt (of_decide_eq_true hupper).2 (by decide)
      · have hle := of_decide_eq_true (Bool.and_eq_true_iff.1 hlower).2
        exact Nat.lt_of_le_of_lt hle (by decide)
    · cases beq_iff_eq.1 hline
      decide
  exact of_ascii (p := fun c => isNameStart c = true → isWord c = true) (by decide +kernel) hc h

end ByteAsm.Text
