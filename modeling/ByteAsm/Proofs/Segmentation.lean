import ByteAsm.Proofs.Escaping

/-! The steps in which escapes are read. A string is taken apart twice, once to find its closing quote and
once to read its escapes, and both go by the same pairs: a backslash and the byte behind it. At every step
what is left to be read falls into bytes and such pairs again, unless an escape cannot be read at all. Every
step takes at least as many bytes as it gives code points, and a byte beyond ASCII is never lost. -/
namespace ByteAsm

namespace Text

theorem le_toNat_of_mem_utf8EncodeChar {c : Char} (hc : 0x80 ≤ c.toNat) {b : UInt8}
    (hb : b ∈ String.utf8EncodeChar c) : 0x80 ≤ b.toNat := by
  have hv : ¬ c.val.toNat ≤ 0x7F := Nat.not_le.2 hc
  simp only [String.utf8EncodeChar, hv, if_false] at hb
  split at hb
  · simp only [List.mem_cons, List.not_mem_nil, or_false] at hb
    rcases hb with rfl | rfl <;> rw [UInt8.toNat_ofNat'] <;> omega
  · split at hb
    · simp only [List.mem_cons, List.not_mem_nil, or_false] at hb
      rcases hb with rfl | rfl | rfl <;> rw [UInt8.toNat_ofNat'] <;> omega
    · simp only [List.mem_cons, List.not_mem_nil, or_false] at hb
      rcases hb with rfl | rfl | rfl | rfl <;> rw [UInt8.toNat_ofNat'] <;> omega

theorem utf8EncodeChar_ne_nil (c : Char) : String.utf8EncodeChar c ≠ [] := by
  unfold String.utf8EncodeChar
  simp only
  split
  · simp
  · split
    · simp
    · split <;> simp

theorem ascii_of_flatMap_utf8EncodeChar {text : List Char}
    (h : ∀ b ∈ text.flatMap String.utf8EncodeChar, b.toNat < 0x80) : ∀ c ∈ text, c.toNat < 0x80 := by
  intro c hc
  apply Nat.lt_of_not_le
  intro hge
  obtain ⟨b, bs, hbytes⟩ := List.exists_cons_of_ne_nil (utf8EncodeChar_ne_nil c)
  have hmem : b ∈ String.utf8EncodeChar c := by simp [hbytes]
  have hlow := h b (List.mem_flatMap.2 ⟨c, hc, hmem⟩)
  have hhigh := le_toNat_of_mem_utf8EncodeChar hge hmem
  omega

namespace Escape

def quote : UInt8 := 0x22

/-- Bytes other than a quote and a backslash, and backslashes with a byte behind each. -/
inductive Segmented : List UInt8 → Prop
  | nil : Segmented []
  | plain {b : UInt8} {rest : List UInt8} (hquote : b ≠ quote) (hback : b ≠ backslash)
      (hrest : Segmented rest) : Segmented (b :: rest)
  | pair {b : UInt8} {rest : List UInt8} (hrest : Segmented rest) : Segmented (backslash :: b :: rest)

/-- One step of the reading: from the bytes that are left, the code points of the first byte or of the
escape at the front, and the bytes behind it. -/
inductive Next (names : CharacterNames) : List UInt8 → List Nat → List UInt8 → Prop
  | plain {b : UInt8} {rest : List UInt8} (hb : b ≠ backslash) : Next names (b :: rest) [b.toNat] rest
  | escape {left rest : List UInt8} {new : List Nat} (hread : read names left = .ok (new, rest)) :
      Next names (backslash :: left) new rest

/-- The reading comes to the bytes that are left, with the code points read before them. -/
inductive Reaches (names : CharacterNames) (bytes : List UInt8) : List Nat → List UInt8 → Prop
  | start : Reaches names bytes [] bytes
  | next {codes new : List Nat} {left rest : List UInt8} (h : Reaches names bytes codes left)
      (hnext : Next names left new rest) : Reaches names bytes (codes ++ new) rest

def Fails (names : CharacterNames) (left : List UInt8) (failure : Failure) : Prop :=
  ∃ tail, left = backslash :: tail ∧ read names tail = .error failure

variable {names : CharacterNames} {bytes left rest : List UInt8} {codes new : List Nat}

theorem next_cases (names : CharacterNames) (left : List UInt8) :
    left = [] ∨ (∃ new rest, Next names left new rest) ∨ ∃ failure, Fails names left failure := by
  cases left with
  | nil => exact .inl rfl
  | cons b tail =>
    by_cases hb : b = backslash
    · subst hb
      cases hread : read names tail with
      | error failure => exact .inr (.inr ⟨failure, tail, rfl, hread⟩)
      | ok p => exact .inr (.inl ⟨p.1, p.2, .escape hread⟩)
    · exact .inr (.inl ⟨_, _, .plain hb⟩)

theorem Next.length_lt (h : Next names left new rest) : rest.length < left.length := by
  cases h with
  | plain => simp
  | escape hread => exact Nat.lt_succ_of_le (read_length hread)

theorem Next.decode_go (h : Next names left new rest) (codes : List Nat) :
    decode.go names bytes codes.reverse left = decode.go names bytes (codes ++ new).reverse rest := by
  cases h with
  | plain hb => simp [decode_go_plain hb]
  | escape hread => simp [decode_go_escape hread]

theorem decode_go_fails {length : Nat} {reason : Reason} (h : Fails names left (length, reason)) :
    decode.go names bytes codes left =
      .error ⟨backslash, bytes.length - left.length, length, reason⟩ := by
  obtain ⟨tail, rfl, hread⟩ := h
  rw [decode.go, if_pos rfl]
  split
  · rename_i he
    rw [hread] at he
    cases he
    rfl
  · rename_i he
    rw [hread] at he
    cases he

theorem Reaches.decode_eq (h : Reaches names bytes codes left) :
    decode names bytes = decode.go names bytes codes.reverse left := by
  induction h with
  | start => rfl
  | next _ hnext ih => rw [ih, hnext.decode_go]

theorem Reaches.ends (h : Reaches names bytes codes left) :
    (∃ all, Reaches names bytes all []) ∨
      ∃ all stop failure, Reaches names bytes all stop ∧ Fails names stop failure := by
  induction hn : left.length using Nat.strongRecOn generalizing codes left with
  | _ n ih =>
    rcases next_cases names left with rfl | ⟨new, rest, hnext⟩ | ⟨failure, hfails⟩
    · exact .inl ⟨codes, h⟩
    · exact ih _ (hn ▸ hnext.length_lt) (h.next hnext) rfl
    · exact .inr ⟨codes, left, failure, h, hfails⟩

theorem Reaches.decode_eq_ok (h : Reaches names bytes codes []) : decode names bytes = .ok codes := by
  rw [h.decode_eq, decode_go_nil, List.reverse_reverse]

theorem Reaches.decode_eq_error {length : Nat} {reason : Reason} (h : Reaches names bytes codes left)
    (hfails : Fails names left (length, reason)) :
    decode names bytes = .error ⟨backslash, bytes.length - left.length, length, reason⟩ := by
  rw [h.decode_eq, decode_go_fails hfails]

theorem decode_eq_ok_iff : decode names bytes = .ok codes ↔ Reaches names bytes codes [] := by
  refine ⟨?_, Reaches.decode_eq_ok⟩
  intro h
  rcases (@Reaches.start names bytes).ends with ⟨all, hall⟩ | ⟨all, stop, ⟨length, reason⟩, hstop, hfails⟩
  · rw [hall.decode_eq_ok] at h
    cases h
    exact hall
  · rw [hstop.decode_eq_error hfails] at h
    cases h

theorem reaches_of_decode_error {m : Malformed Reason} (h : decode names bytes = .error m) :
    ∃ codes left length, Reaches names bytes codes left ∧ Fails names left (length, m.reason) := by
  rcases (@Reaches.start names bytes).ends with ⟨all, hall⟩ | ⟨all, stop, ⟨length, reason⟩, hstop, hfails⟩
  · rw [hall.decode_eq_ok] at h
    cases h
  · rw [hstop.decode_eq_error hfails] at h
    cases h
    exact ⟨all, stop, length, hstop, hfails⟩

/-! What one step takes. -/

/-- ASCII bytes other than a backslash. -/
def Tame (b : UInt8) : Prop := b.toNat < 0x80 ∧ b ≠ backslash

theorem tame_of_isOctal {b : UInt8} (h : isOctal b = true) : Tame b := by
  simp only [isOctal, Bool.and_eq_true, decide_eq_true_eq] at h
  refine ⟨by omega, ?_⟩
  rintro rfl
  exact absurd h.2 (by decide)

theorem tame_of_isHex {b : UInt8} (h : isHex b = true) : Tame b := by
  refine ⟨?_, ?_⟩
  · simp only [isHex, hexDigitValue?] at h
    split at h
    · omega
    · split at h
      · omega
      · split at h
        · omega
        · cases h
  · rintro rfl
    exact absurd h (by decide)

theorem tame_of_isNameChar {b : UInt8} (h : isNameChar (Char.ofUInt8 b) = true) : Tame b := by
  simp only [isNameChar, Bool.and_eq_true, decide_eq_true_eq, bne_iff_ne] at h
  refine ⟨h.1, ?_⟩
  rintro rfl
  exact h.2 rfl

theorem simple?_eq_some {c : Char} (h : simple? c = some new) : c.toNat < 0x80 ∧ new.length ≤ 1 := by
  unfold simple? at h
  split at h
  all_goals cases h
  all_goals decide

theorem readOctal_front {b : UInt8} {tail : List UInt8} (hb : isOctal b = true)
    (h : readOctal (b :: tail) = (new, rest)) :
    ∃ more, tail = more ++ rest ∧ (∀ d ∈ more, Tame d) ∧ new.length = 1 := by
  cases h
  refine ⟨(tail.take 2).takeWhile isOctal, ?_, ?_, rfl⟩
  · have hstart : (tail.take 2).takeWhile isOctal <+: tail :=
      (List.takeWhile_prefix isOctal).trans (List.take_prefix 2 tail)
    simpa [hb] using (List.prefix_iff_eq_append.1 hstart).symm
  · intro d hd
    exact tame_of_isOctal (List.all_eq_true.1 List.all_takeWhile d hd)

theorem readHex_front {width : Nat} {reason : Reason} (h : readHex width reason bytes = .ok (new, rest)) :
    ∃ digits, bytes = digits ++ rest ∧ (∀ d ∈ digits, Tame d) ∧ new.length = 1 := by
  simp only [readHex] at h
  split at h
  · cases h
  · rename_i hlength
    split at h
    · cases h
    · cases h
      have htake : (bytes.take width).takeWhile isHex = bytes.take width := by
        refine (List.takeWhile_prefix isHex).eq_of_length_le ?_
        exact Nat.le_trans (List.length_take_le width bytes) (Nat.le_of_not_lt hlength)
      refine ⟨bytes.take width, (List.take_append_drop width bytes).symm, ?_, rfl⟩
      intro d hd
      rw [← htake] at hd
      exact tame_of_isHex (List.all_eq_true.1 List.all_takeWhile d hd)

theorem readName_front (h : readName names bytes = .ok (new, rest)) :
    ∃ name, bytes = name ++ rest ∧ (∀ d ∈ name, Tame d) ∧ new.length = 1 := by
  unfold readName at h
  split at h
  · rename_i body
    have hbody := @List.takeWhile_append_dropWhile _ (· ≠ 0x7D) body
    simp only at h
    split at h
    · cases h
    · rename_i close tail hclose
      have hbrace : close = 0x7D := by
        have hhead := List.head?_dropWhile_not (· ≠ 0x7D) body
        rw [hclose] at hhead
        simpa using hhead
      split at h
      · cases h
      · split at h
        · rename_i code hcode
          cases h
          refine ⟨0x7B :: (body.takeWhile (· ≠ 0x7D) ++ [0x7D]), ?_, ?_, rfl⟩
          · rw [hclose, hbrace] at hbody
            rw [List.cons_append, List.append_assoc, List.singleton_append, hbody]
          · intro d hd
            simp only [List.mem_cons, List.mem_append, List.not_mem_nil, or_false] at hd
            rcases hd with rfl | hd | rfl
            · exact ⟨by decide, by decide⟩
            · exact tame_of_isNameChar (names.isNameChar_of_code? hcode _ (List.mem_map_of_mem hd))
            · exact ⟨by decide, by decide⟩
        · cases h
  · cases h

/-- Behind the backslash and one more byte, an escape has ASCII bytes and no other backslash. If it gives
ASCII only, this one byte is ASCII, too. -/
theorem read_front (h : read names bytes = .ok (new, rest)) :
    ∃ b more, bytes = b :: (more ++ rest) ∧ (∀ d ∈ more, Tame d) ∧ new.length ≤ more.length + 2 ∧
      ((∀ n ∈ new, n < 0x80) → b.toNat < 0x80) := by
  cases bytes with
  | nil => cases h
  | cons b tail =>
    have hletter : ∀ {c : Char}, Char.ofUInt8 b = c → c.toNat < 0x80 → b.toNat < 0x80 := by
      rintro c rfl hc
      exact hc
    simp only [read] at h
    split at h
    · rename_i codes hcodes
      cases h
      obtain ⟨hb, hlength⟩ := simple?_eq_some hcodes
      exact ⟨b, [], rfl, by simp, Nat.le_succ_of_le hlength, fun _ => hb⟩
    · split at h
      · rename_i hb
        cases hoctal : readOctal (b :: tail)
        rw [hoctal] at h
        cases h
        obtain ⟨more, rfl, hmore, hlength⟩ := readOctal_front hb hoctal
        exact ⟨b, more, rfl, hmore, by omega, fun _ => (tame_of_isOctal hb).1⟩
      · split at h
        · rename_i hc
          obtain ⟨more, rfl, hmore, hlength⟩ := readHex_front h
          exact ⟨b, more, rfl, hmore, by omega, fun _ => hletter hc (by decide)⟩
        · rename_i hc
          obtain ⟨more, rfl, hmore, hlength⟩ := readHex_front h
          exact ⟨b, more, rfl, hmore, by omega, fun _ => hletter hc (by decide)⟩
        · rename_i hc
          obtain ⟨more, rfl, hmore, hlength⟩ := readHex_front h
          exact ⟨b, more, rfl, hmore, by omega, fun _ => hletter hc (by decide)⟩
        · rename_i hc
          obtain ⟨more, rfl, hmore, hlength⟩ := readName_front h
          exact ⟨b, more, rfl, hmore, by omega, fun _ => hletter hc (by decide)⟩
        · cases h
          exact ⟨b, [], rfl, by simp, by simp, fun hnew => hnew _ (by simp)⟩

theorem Next.front (h : Next names left new rest) :
    ∃ used, left = used ++ rest ∧ new.length ≤ used.length ∧
      ((∀ n ∈ new, n < 0x80) → ∀ b ∈ used, b.toNat < 0x80) := by
  cases h with
  | @plain b _ hb => exact ⟨[b], rfl, Nat.le_refl _, by simp⟩
  | escape hread =>
    obtain ⟨b, more, rfl, hmore, hlength, hb⟩ := read_front hread
    refine ⟨backslash :: b :: more, rfl, by simpa using hlength, ?_⟩
    intro hnew d hd
    rcases List.mem_cons.1 hd with rfl | hd
    · decide
    · rcases List.mem_cons.1 hd with rfl | hd
      · exact hb hnew
      · exact (hmore d hd).1

theorem Segmented.tail {b : UInt8} (h : Segmented (b :: rest)) (hb : b ≠ backslash) :
    Segmented rest := by
  cases h with
  | plain _ _ hrest => exact hrest
  | pair => exact absurd rfl hb

theorem Segmented.of_append {front : List UInt8} (hfront : ∀ b ∈ front, Tame b)
    (h : Segmented (front ++ rest)) : Segmented rest := by
  induction front with
  | nil => exact h
  | cons b front ih =>
    have htail := Segmented.tail h (hfront b List.mem_cons_self).2
    exact ih (fun d hd => hfront d (List.mem_cons_of_mem b hd)) htail

theorem Segmented.exists_pair (h : Segmented (backslash :: left)) :
    ∃ b rest, left = b :: rest ∧ Segmented rest := by
  cases h with
  | plain _ hback => exact absurd rfl hback
  | pair hrest => exact ⟨_, _, rfl, hrest⟩

theorem Segmented.next (h : Segmented left) (hnext : Next names left new rest) : Segmented rest := by
  cases hnext with
  | plain hb => exact h.tail hb
  | escape hread =>
    obtain ⟨b, more, rfl, hmore, _⟩ := read_front hread
    obtain ⟨_, _, he, hrest⟩ := h.exists_pair
    cases he
    exact hrest.of_append hmore

theorem reason_of_readHex {width length : Nat} {reason found : Reason}
    (h : readHex width reason bytes = .error (length, found)) : found = reason ∨ found = .beyondUnicode := by
  simp only [readHex] at h
  split at h
  · cases h
    exact .inl rfl
  · split at h
    · cases h
      exact .inr rfl
    · cases h

theorem reason_of_readName {length : Nat} {found : Reason}
    (h : readName names bytes = .error (length, found)) : found = .malformedName ∨ found = .unknownName := by
  unfold readName at h
  split at h
  · simp only at h
    split at h
    · cases h
      exact .inl rfl
    · split at h
      · cases h
        exact .inl rfl
      · split at h
        · cases h
        · cases h
          exact .inr rfl
  · cases h
    exact .inl rfl

theorem read_cons_ne_loneBackslash {b : UInt8} {tail : List UInt8} {length : Nat} :
    read names (b :: tail) ≠ .error (length, .loneBackslash) := by
  intro h
  simp only [read] at h
  split at h
  · cases h
  · split at h
    · cases h
    · split at h
      · rcases reason_of_readHex h with he | he <;> cases he
      · rcases reason_of_readHex h with he | he <;> cases he
      · rcases reason_of_readHex h with he | he <;> cases he
      · rcases reason_of_readName h with he | he <;> cases he
      · cases h

theorem Segmented.ne_loneBackslash {length : Nat} {reason : Reason} (h : Segmented left)
    (hfails : Fails names left (length, reason)) : reason ≠ .loneBackslash := by
  obtain ⟨tail, rfl, hread⟩ := hfails
  obtain ⟨b, rest, rfl, _⟩ := h.exists_pair
  rintro rfl
  exact read_cons_ne_loneBackslash hread

/-- Along the whole reading, what is left falls into bytes and pairs. -/
theorem Reaches.segmented (h : Reaches names bytes codes left) (hbytes : Segmented bytes) :
    Segmented left := by
  induction h with
  | start => exact hbytes
  | next _ hnext ih => exact ih.next hnext

theorem Reaches.front (h : Reaches names bytes codes left) :
    ∃ used, bytes = used ++ left ∧ codes.length ≤ used.length ∧
      ((∀ n ∈ codes, n < 0x80) → ∀ b ∈ used, b.toNat < 0x80) := by
  induction h with
  | start => exact ⟨[], rfl, Nat.le_refl _, by simp⟩
  | next _ hnext ih =>
    obtain ⟨used, rfl, hlength, hascii⟩ := ih
    obtain ⟨more, rfl, hmore, hnew⟩ := hnext.front
    refine ⟨used ++ more, by simp, by simp; omega, ?_⟩
    intro hall b hb
    rcases List.mem_append.1 hb with hb | hb
    · exact hascii (fun n hn => hall n (List.mem_append_left _ hn)) b hb
    · exact hnew (fun n hn => hall n (List.mem_append_right _ hn)) b hb

theorem Segmented.plain_append {front : List UInt8} (hfront : ∀ b ∈ front, b ≠ quote ∧ b ≠ backslash)
    (h : Segmented rest) : Segmented (front ++ rest) := by
  induction front with
  | nil => exact h
  | cons b front ih =>
    obtain ⟨hquote, hback⟩ := hfront b List.mem_cons_self
    exact .plain hquote hback (ih fun d hd => hfront d (List.mem_cons_of_mem b hd))

theorem plain_of_le {b : UInt8} (h : 0x80 ≤ b.toNat) : b ≠ quote ∧ b ≠ backslash := by
  constructor <;> rintro rfl <;> exact absurd h (by decide)

theorem plain_utf8EncodeChar {c : Char} (hquote : c ≠ '"') (hback : c ≠ '\\') :
    ∀ b ∈ String.utf8EncodeChar c, b ≠ quote ∧ b ≠ backslash := by
  intro b hb
  rcases Nat.lt_or_ge c.toNat 0x80 with hc | hc
  · rw [utf8EncodeChar_ascii hc, List.mem_singleton] at hb
    subst hb
    exact of_ascii (p := fun c => c ≠ '"' → c ≠ '\\' →
      UInt8.ofNat c.toNat ≠ quote ∧ UInt8.ofNat c.toNat ≠ backslash) (by decide +kernel) hc hquote hback
  · exact plain_of_le (le_toNat_of_mem_utf8EncodeChar hc hb)

theorem exists_utf8EncodeChar (c : Char) :
    ∃ b more, String.utf8EncodeChar c = b :: more ∧ ∀ d ∈ more, d ≠ quote ∧ d ≠ backslash := by
  rcases Nat.lt_or_ge c.toNat 0x80 with hc | hc
  · exact ⟨_, [], utf8EncodeChar_ascii hc, by simp⟩
  · obtain ⟨b, more, hbytes⟩ := List.exists_cons_of_ne_nil (utf8EncodeChar_ne_nil c)
    refine ⟨b, more, hbytes, ?_⟩
    intro d hd
    exact plain_of_le (le_toNat_of_mem_utf8EncodeChar hc (by simp [hbytes, hd]))

/-- The body of a string falls into bytes and pairs. -/
theorem segmented_body {body : List Char} (h : Source.Body body) :
    Segmented (body.flatMap String.utf8EncodeChar) := by
  induction h with
  | nil => exact .nil
  | plain hquote hback _ ih =>
    rw [List.flatMap_cons]
    exact ih.plain_append (plain_utf8EncodeChar hquote hback)
  | @pair c body _ _ ih =>
    obtain ⟨b, more, hbytes, hmore⟩ := exists_utf8EncodeChar c
    rw [List.flatMap_cons, List.flatMap_cons, hbytes,
      utf8EncodeChar_ascii (show '\\'.toNat < 0x80 by decide)]
    exact .pair (ih.plain_append hmore)

/-- The reading of a string never ends with a lone backslash. -/
theorem ne_loneBackslash_of_decode {body : List Char} {m : Malformed Reason} (hbody : Source.Body body)
    (h : decode names (body.flatMap String.utf8EncodeChar) = .error m) : m.reason ≠ .loneBackslash := by
  obtain ⟨codes, left, length, hreaches, hfails⟩ := reaches_of_decode_error h
  exact (hreaches.segmented (segmented_body hbody)).ne_loneBackslash hfails

end Escape

end Text

namespace Source

open Text

variable {names : CharacterNames} {body : List Char}

/-- A string that can be read has ASCII characters only, and gives ASCII bytes, at most as many as it has
characters. -/
theorem bodyBytesWith_eq_ok {bytes : List UInt8} (h : bodyBytesWith names body = .ok bytes) :
    (∀ c ∈ body, c.toNat < 0x80) ∧ (∀ b ∈ bytes, b.toNat < 0x80) ∧ bytes.length ≤ body.length := by
  rw [bodyBytesWith] at h
  split at h
  · cases h
  · rename_i codes hdecode
    split at h
    · cases h
    · rename_i hencode
      cases h
      obtain ⟨hcodes, rfl⟩ := Ascii.encode_eq_ok_iff.1 hencode
      obtain ⟨used, hused, hlength, hascii⟩ := (Escape.decode_eq_ok_iff.1 hdecode).front
      rw [List.append_nil] at hused
      have hbody : ∀ c ∈ body, c.toNat < 0x80 := by
        apply ascii_of_flatMap_utf8EncodeChar
        rw [hused]
        exact hascii hcodes
      refine ⟨hbody, ?_, ?_⟩
      · intro b hb
        obtain ⟨n, hn, rfl⟩ := List.mem_map.1 hb
        have hlt := hcodes n hn
        rw [UInt8.toNat_ofNat']
        omega
      · rw [List.length_map]
        have hsize := congrArg List.length hused
        rw [flatMap_utf8EncodeChar_ascii hbody, asciiBytes, List.length_map] at hsize
        omega

end Source

end ByteAsm
