/-! Sets of characters given as closed ranges of code points. -/
namespace ByteAsm.Text

/-- Closed ranges of code points, in ascending order. -/
abbrev Ranges := List (Nat × Nat)

def Ranges.covers (rs : Ranges) (c : Char) : Bool :=
  rs.any fun r => r.1 ≤ c.toNat && c.toNat ≤ r.2

theorem Ranges.covers_iff {rs : Ranges} {c : Char} :
    rs.covers c = true ↔ ∃ r ∈ rs, r.1 ≤ c.toNat ∧ c.toNat ≤ r.2 := by
  simp [Ranges.covers, List.any_eq_true]

end ByteAsm.Text
