import ByteAsm.Image
import ByteAsm.Numeral
import ByteAsm.Text.Ascii
import ByteAsm.Text.Escape
import ByteAsm.Text.Quoted
import ByteAsm.Text.Utf8

/-! What can stop an assembly, and the message for it. -/
namespace ByteAsm

open Text

inductive Fault
  /-- A branch to a label that is not defined. -/
  | undefinedLabel (name : String)
  /-- A byte that cannot be placed. -/
  | image (fault : Image.Fault)
  /-- A number that cannot be read. -/
  | numeral (fault : Numeral.Fault)
  /-- A string with a bad escape. -/
  | escape (fault : Malformed Escape.Reason)
  /-- A string with a character beyond ASCII. -/
  | ascii (fault : Ascii.Fault)
  /-- A source file that is not UTF-8. -/
  | encoding (fault : Malformed Utf8.Reason)
  /-- A file that is not there, or whose directory is not. -/
  | missingFile (name : String)
  /-- A directory in place of a file. -/
  | directory (name : String)
  /-- A program asked for when there is no text. -/
  | noProgram
  /-- A statement asked for when there is no text. -/
  | noText
  deriving DecidableEq, Repr

def Image.Fault.message : Image.Fault → String
  | outside => "bytearray index out of range"
  | overflow => "byte must be in range(0, 256)"

/-- The quoted digits of a refused literal are cut after 200 characters. -/
def Numeral.Fault.message : Numeral.Fault → String
  | tooLong count =>
    s!"Exceeds the limit ({maxDigits} digits) for integer string conversion: " ++
      s!"value has {count} digits; use sys.set_int_max_str_digits() to increase the limit"
  | leadingZero digits =>
    "invalid literal for int() with base 0: " ++ String.ofList ((quoted digits).toList.take 200)

namespace Text

def Escape.Reason.message : Escape.Reason → String
  | truncatedByte => "truncated \\xXX escape"
  | truncatedShort => "truncated \\uXXXX escape"
  | truncatedLong => "truncated \\UXXXXXXXX escape"
  | beyondUnicode => "illegal Unicode character"
  | malformedName => "malformed \\N character escape"
  | unknownName => "unknown Unicode character name"
  | loneBackslash => "\\ at end of string"

def Utf8.Reason.message : Utf8.Reason → String
  | start => "invalid start byte"
  | continuation => "invalid continuation byte"
  | unfinished => "unexpected end of data"

/-- A single code point is shown, of more only the positions are. -/
def Ascii.Fault.message (f : Ascii.Fault) : String :=
  let stretch :=
    match f.stretch with
    | [code] => s!"character '{escapeText code}' in position {f.position}"
    | codes => s!"characters in position {f.position}-{f.position + codes.length - 1}"
  s!"'ascii' codec can't encode {stretch}: ordinal not in range(128)"

end Text

def Fault.message : Fault → String
  | undefinedLabel name => s!"Undefined label: {name}"
  | image f => f.message
  | numeral f => f.message
  | escape f => s!"'unicodeescape' codec can't decode {f.stretch}: {f.reason.message}"
  | ascii f => f.message
  | encoding f => s!"'utf-8' codec can't decode {f.stretch}: {f.reason.message}"
  | missingFile name => s!"[Errno 2] No such file or directory: {quoted name.toList}"
  | directory name => s!"[Errno 21] Is a directory: {quoted name.toList}"
  | noProgram => "object of type 'NoneType' has no len()"
  | noText => "expected string or bytes-like object, got 'NoneType'"

end ByteAsm
