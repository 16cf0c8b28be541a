/-! The memory image that a program is assembled into, and the placing of bytes in it.
Bytes go in one at a time, so a fault leaves the bytes before it in place. -/
namespace ByteAsm

abbrev Image := Array UInt8

/-- What becomes of the byte that an image already holds where a new one is placed. -/
inductive Placement
  | add
  | overwrite
  deriving DecidableEq, Repr

/-- The byte that replaces `old` when `new` is placed on it. A sum has to fit in a byte. -/
def Placement.combine? (p : Placement) (old new : UInt8) : Option UInt8 :=
  match p with
  | add => if old.toNat + new.toNat < 0x100 then some (old + new) else none
  | overwrite => some new

namespace Image

inductive Fault
  | outside
  | overflow
  deriving DecidableEq, Repr

/-- An image with the address behind the last byte placed, and what stopped the placing. -/
structure Placed where
  image : Image
  next : Nat
  fault : Option Fault

/-- Place some bytes from an address on, up to the first fault. -/
def place (p : Placement) (image : Image) (addr : Nat) : List UInt8 → Placed
  | [] => ⟨image, addr, none⟩
  | b :: bs =>
    if h : addr < image.size then
      match p.combine? image[addr] b with
      | some v => place p (image.set addr v) (addr + 1) bs
      | none => ⟨image, addr, some .overflow⟩
    else ⟨image, addr, some .outside⟩

variable {p : Placement} {image : Image} {addr : Nat} {b v : UInt8} {bs : List UInt8}

@[simp] theorem place_nil : place p image addr [] = ⟨image, addr, none⟩ := rfl

theorem place_cons_outside (h : image.size ≤ addr) :
    place p image addr (b :: bs) = ⟨image, addr, some .outside⟩ := by
  simp [place, Nat.not_lt.2 h]

theorem place_cons_overflow (h : addr < image.size) (hb : p.combine? image[addr] b = none) :
    place p image addr (b :: bs) = ⟨image, addr, some .overflow⟩ := by
  simp [place, h, hb]

theorem place_cons_some (h : addr < image.size) (hb : p.combine? image[addr] b = some v) :
    place p image addr (b :: bs) = place p (image.set addr v) (addr + 1) bs := by
  simp [place, h, hb]

@[simp] theorem size_place (p : Placement) (image : Image) (addr : Nat) (bs : List UInt8) :
    (place p image addr bs).image.size = image.size := by
  fun_induction place p image addr bs <;> simp_all

theorem le_next_place (p : Placement) (image : Image) (addr : Nat) (bs : List UInt8) :
    addr ≤ (place p image addr bs).next := by
  fun_induction place p image addr bs <;> grind

theorem next_place_le (p : Placement) (image : Image) (addr : Nat) (bs : List UInt8) :
    (place p image addr bs).next ≤ addr + bs.length := by
  fun_induction place p image addr bs <;> grind

theorem next_place_of_fault_none (h : (place p image addr bs).fault = none) :
    (place p image addr bs).next = addr + bs.length := by
  fun_induction place p image addr bs with
  | case1 => rfl
  | case2 image addr b bs _ v _ ih =>
    rw [ih h, List.length_cons]
    omega
  | case3 => simp at h
  | case4 => simp at h

end Image

end ByteAsm
