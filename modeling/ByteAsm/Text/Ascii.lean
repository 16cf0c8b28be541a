/-! Code points as ASCII bytes. -/
namespace ByteAsm.Text.Ascii

/-- The first stretch of code points beyond ASCII. -/
structure Fault where
  position : Nat
  stretch : List Nat
  deriving DecidableEq, Repr

def encode (codes : List Nat) : Except Fault (List UInt8) :=
  if codes.all (· < 0x80) then .ok (codes.map UInt8.ofNat)
  else .error ⟨(codes.takeWhile (· < 0x80)).length,
    (codes.dropWhile (· < 0x80)).takeWhile (0x80 ≤ ·)⟩

/-- Exactly the sequences of ASCII code points can be written. -/
theorem encode_eq_ok_iff {codes : List Nat} {bytes : List UInt8} :
    encode codes = .ok bytes ↔ (∀ c ∈ codes, c < 0x80) ∧ codes.map UInt8.ofNat = bytes := by
  by_cases h : codes.all (· < 0x80)
  · simp_all [encode]
  · simp only [encode, h, Bool.false_eq_true, if_false, reduceCtorEq, false_iff, not_and]
    intro hall
    exact absurd (List.all_eq_true.2 fun c hc => decide_eq_true (hall c hc)) h

end ByteAsm.Text.Ascii
