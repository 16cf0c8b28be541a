import ByteAsm.Image
import Std.Data.TreeMap

/-! The state of an assembly. -/
namespace ByteAsm

/-- A branch whose target is to be filled in: the label it names and where it stands. -/
structure Reference where
  label : String
  offset : Nat
  deriving DecidableEq, Repr

/-- The image with the next free addresses for code and for data, the labels and references met
so far, and the text still to be read, if there is one. -/
structure State where
  image : Image
  text : Option (List Char)
  code : Nat
  data : Nat
  labels : Std.TreeMap String Nat
  references : Array Reference

namespace State

/-- Code starts at the bottom of the image and data in its upper half. -/
def fresh : State where
  image := Array.replicate 0x10000 0
  text := some []
  code := 0
  data := 0x8000
  labels := ∅
  references := #[]

def withText (s : State) (text : List Char) : State := { s with text := some text }

def finished (s : State) : Bool :=
  match s.text with
  | some (_ :: _) => false
  | _ => true

def left (s : State) : Nat :=
  match s.text with
  | some text => text.length
  | none => 0

end State

end ByteAsm
