import ByteAsm.Text.Hex
import ByteAsm.Text.Printable

/-! Quoted text for messages. The quotes are single, or double where the text holds single
quotes only, and what does not print is escaped. -/
namespace ByteAsm.Text

def singleQuote : Char := '\x27'

def doubleQuote : Char := '\x22'

def quoteFor (text : List Char) : Char :=
  if singleQuote ∈ text ∧ doubleQuote ∉ text then doubleQuote else singleQuote

def quotedChar (quote c : Char) : String :=
  if c = quote ∨ c = '\\' then String.ofList ['\\', c]
  else if c = '\t' then "\\t"
  else if c = '\n' then "\\n"
  else if c = '\r' then "\\r"
  else if isPrintable c then String.ofList [c]
  else escapeText c.toNat

def quoted (text : List Char) : String :=
  let quote := quoteFor text
  String.singleton quote ++ String.join (text.map (quotedChar quote)) ++ String.singleton quote

end ByteAsm.Text
