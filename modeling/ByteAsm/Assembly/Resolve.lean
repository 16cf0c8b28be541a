import ByteAsm.Assembly.Action

/-! Filling in the targets of branches once the labels are known. -/
namespace ByteAsm.State

/-- Write the address of the label that a reference names behind the opcode of its branch. -/
def patch (s : State) (r : Reference) : Outcome State :=
  match s with
  | ⟨image, text, code, data, labels, references⟩ =>
    match labels[r.label]? with
    | none => ⟨⟨image, text, code, data, labels, references⟩, [], some (.undefinedLabel r.label)⟩
    | some addr =>
      let placed := image.place .overwrite (r.offset + 1) (wordBytes addr)
      ⟨⟨placed.image, text, code, data, labels, references⟩,
        [.branchResolved r.label r.offset addr], placed.fault.map .image⟩

/-- Patch every branch met so far, in order. The references are kept. -/
def resolve (s : State) : Outcome State := Outcome.forEach patch s s.references.toList

theorem patch_of_undefined {s : State} {r : Reference} (h : s.labels[r.label]? = none) :
    s.patch r = ⟨s, [], some (.undefinedLabel r.label)⟩ := by
  simp [patch, h]

theorem patch_of_defined {s : State} {r : Reference} {addr : Nat}
    (h : s.labels[r.label]? = some addr) :
    s.patch r =
      ⟨{ s with image := (s.image.place .overwrite (r.offset + 1) (wordBytes addr)).image },
        [.branchResolved r.label r.offset addr],
        (s.image.place .overwrite (r.offset + 1) (wordBytes addr)).fault.map .image⟩ := by
  simp [patch, h]

end ByteAsm.State
