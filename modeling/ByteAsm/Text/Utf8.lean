import ByteAsm.Text.Malformed

/-! Reading UTF-8. A character is read byte by byte, and each byte has to lie in the range
that the bytes before it leave open, so that overlong forms and surrogates are refused at
the first byte that gives them away. -/
namespace ByteAsm.Text.Utf8

inductive Reason
  | start
  | continuation
  | unfinished
  deriving DecidableEq, Repr

/-- What a first byte announces: its share of the code point, the number of bytes to come and
the range of the next one. -/
structure Lead where
  share : Nat
  more : Nat
  lower : Nat
  upper : Nat

def lead? (b : Nat) : Option Lead :=
  if b < 0x80 then some ⟨b, 0, 0x80, 0xBF⟩
  else if b < 0xC2 then none
  else if b < 0xE0 then some ⟨b - 0xC0, 1, 0x80, 0xBF⟩
  else if b < 0xF0 then
    some ⟨b - 0xE0, 2, if b = 0xE0 then 0xA0 else 0x80, if b = 0xED then 0x9F else 0xBF⟩
  else if b < 0xF5 then
    some ⟨b - 0xF0, 3, if b = 0xF0 then 0x90 else 0x80, if b = 0xF4 then 0x8F else 0xBF⟩
  else none

/-- Read the bytes behind the first one. `taken` bytes of the character are read already. -/
def readTail (share taken : Nat) :
    Nat → Nat → Nat → List UInt8 → Except (Nat × Reason) (Nat × List UInt8)
  | 0, _, _, rest => .ok (share, rest)
  | _ + 1, _, _, [] => .error (taken, .unfinished)
  | more + 1, lower, upper, b :: rest =>
    if lower ≤ b.toNat ∧ b.toNat ≤ upper then
      readTail (share * 0x40 + (b.toNat - 0x80)) (taken + 1) more 0x80 0xBF rest
    else .error (taken, .continuation)

/-- Read the character that starts with the byte `b`. An error has the number of bytes that
cannot be read. -/
def readChar (b : UInt8) (rest : List UInt8) : Except (Nat × Reason) (Char × List UInt8) :=
  match lead? b.toNat with
  | none => .error (1, .start)
  | some lead =>
    match readTail lead.share 1 lead.more lead.lower lead.upper rest with
    | .error e => .error e
    | .ok (code, rest) => .ok (Char.ofNat code, rest)

theorem readTail_length {share taken more lower upper code : Nat} {bytes rest : List UInt8}
    (h : readTail share taken more lower upper bytes = .ok (code, rest)) :
    rest.length ≤ bytes.length := by
  fun_induction readTail share taken more lower upper bytes <;> grind

theorem readChar_length {b : UInt8} {bytes rest : List UInt8} {c : Char}
    (h : readChar b bytes = .ok (c, rest)) : rest.length ≤ bytes.length := by
  unfold readChar at h
  split at h
  · simp at h
  · split at h
    · simp at h
    · rename_i hr
      simp only [Except.ok.injEq, Prod.mk.injEq] at h
      exact h.2 ▸ readTail_length hr

def decode (bytes : List UInt8) : Except (Malformed Reason) (List Char) := go [] bytes
where
  go (chars : List Char) : List UInt8 → Except (Malformed Reason) (List Char)
    | [] => .ok chars.reverse
    | b :: rest =>
      match _ : readChar b rest with
      | .error (length, reason) =>
        .error ⟨b, bytes.length - (rest.length + 1), length, reason⟩
      | .ok (c, left) => go (c :: chars) left
  termination_by left => left.length
  decreasing_by
    have := readChar_length ‹_›
    simp only [List.length_cons]
    omega

end ByteAsm.Text.Utf8
