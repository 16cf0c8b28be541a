import ByteAsm.Text.Hex

/-! What an assembly reports on its way. -/
namespace ByteAsm

open Text

inductive Notice
  | labelDefined (name : String) (addr : Nat)
  | dataStored (bytes : List UInt8)
  | unknownToken (token : List Char)
  | branchResolved (name : String) (offset addr : Nat)
  | imageWritten (size : Nat) (file : String)
  deriving DecidableEq, Repr

def Notice.line : Notice → String
  | labelDefined name addr => s!"Label {name} defined at address {addr}"
  | dataStored bytes =>
    let text := String.ofList (bytes.map Char.ofUInt8)
    let values := ", ".intercalate (bytes.map fun b => toString b.toNat)
    s!".ascii \"{text}\" → [{values}]"
  | unknownToken token => s!"Unknown token: {String.ofList token}"
  | branchResolved name offset addr =>
    s!"Resolving BR to '{name}' at offset {offset} → 0x{hexText 2 addr}"
  | imageWritten size file => s!"Wrote {size} bytes to {file}"

def Notice.report (notices : List Notice) : String :=
  String.join (notices.map fun n => n.line ++ "\n")

end ByteAsm
