import ByteAsm.Text.CharacterName
import ByteAsm.Text.Malformed

/-! Backslash escapes in a byte sequence. Bytes outside of escapes stand for the code points
of the same value. Code points are numbers here, since an escape can name one that is not a
character. -/
namespace ByteAsm.Text.Escape

variable {names : CharacterNames}

inductive Reason
  | truncatedByte
  | truncatedShort
  | truncatedLong
  | beyondUnicode
  | malformedName
  | unknownName
  | loneBackslash
  deriving DecidableEq, Repr

/-- The bytes that cannot be read, counted from the backslash, and why. -/
abbrev Failure := Nat × Reason

def backslash : UInt8 := 0x5C

/-- The code points of an escape that consists of one character behind the backslash. -/
def simple? : Char → Option (List Nat)
  | '\n' => some []
  | '\\' => some [0x5C]
  | '\x27' => some [0x27]
  | '\x22' => some [0x22]
  | 'a' => some [0x07]
  | 'b' => some [0x08]
  | 't' => some [0x09]
  | 'n' => some [0x0A]
  | 'v' => some [0x0B]
  | 'f' => some [0x0C]
  | 'r' => some [0x0D]
  | _ => none

def isOctal (b : UInt8) : Bool := 0x30 ≤ b.toNat && b.toNat ≤ 0x37

def isHex (b : UInt8) : Bool := (hexDigitValue? b.toNat).isSome

def octalValue (digits : List UInt8) : Nat :=
  digits.foldl (fun n b => 8 * n + (b.toNat - 0x30)) 0

def readOctal (bytes : List UInt8) : List Nat × List UInt8 :=
  let digits := (bytes.take 3).takeWhile isOctal
  ([octalValue digits], bytes.drop digits.length)

/-- An escape of `width` hexadecimal digits behind its letter. -/
def readHex (width : Nat) (reason : Reason) (bytes : List UInt8) :
    Except Failure (List Nat × List UInt8) :=
  let digits := (bytes.take width).takeWhile isHex
  let code := hexValue (digits.map UInt8.toNat)
  if digits.length < width then .error (digits.length + 2, reason)
  else if 0x10FFFF < code then .error (width + 2, .beyondUnicode)
  else .ok ([code], bytes.drop width)

/-- An escape by the name of a character in braces. -/
def readName (names : CharacterNames) (bytes : List UInt8) :
    Except Failure (List Nat × List UInt8) :=
  match bytes with
  | 0x7B :: body =>
    let name := body.takeWhile (· ≠ 0x7D)
    match body.dropWhile (· ≠ 0x7D) with
    | [] => .error (name.length + 3, .malformedName)
    | _ :: rest =>
      if name = [] then .error (3, .malformedName)
      else
        match names.code? (name.map Char.ofUInt8) with
        | some code => .ok ([code], rest)
        | none => .error (name.length + 4, .unknownName)
  | _ => .error (2, .malformedName)

/-- Read the escape behind a backslash. What is no escape keeps its backslash. -/
def read (names : CharacterNames) : List UInt8 → Except Failure (List Nat × List UInt8)
  | [] => .error (1, .loneBackslash)
  | b :: rest =>
    match simple? (Char.ofUInt8 b) with
    | some codes => .ok (codes, rest)
    | none =>
      if isOctal b then .ok (readOctal (b :: rest))
      else
        match Char.ofUInt8 b with
        | 'x' => readHex 2 .truncatedByte rest
        | 'u' => readHex 4 .truncatedShort rest
        | 'U' => readHex 8 .truncatedLong rest
        | 'N' => readName names rest
        | _ => .ok ([backslash.toNat, b.toNat], rest)

theorem readHex_length {width : Nat} {reason : Reason} {bytes rest : List UInt8}
    {codes : List Nat} (h : readHex width reason bytes = .ok (codes, rest)) :
    rest.length ≤ bytes.length := by
  grind [readHex]

theorem readName_length {bytes rest : List UInt8} {codes : List Nat}
    (h : readName names bytes = .ok (codes, rest)) : rest.length ≤ bytes.length := by
  unfold readName at h
  split at h
  · rename_i body
    have hd := (List.dropWhile_sublist (l := body) (· ≠ 0x7D)).length_le
    grind
  · simp at h

theorem read_length {bytes rest : List UInt8} {codes : List Nat}
    (h : read names bytes = .ok (codes, rest)) : rest.length ≤ bytes.length := by
  unfold read at h
  split at h
  · simp at h
  · rename_i b tail
    split at h
    · grind
    · split at h
      · grind [readOctal]
      · simp only [List.length_cons]
        split at h
        · exact Nat.le_succ_of_le (readHex_length h)
        · exact Nat.le_succ_of_le (readHex_length h)
        · exact Nat.le_succ_of_le (readHex_length h)
        · exact Nat.le_succ_of_le (readName_length h)
        · grind

def decode (names : CharacterNames) (bytes : List UInt8) : Except (Malformed Reason) (List Nat) :=
  go [] bytes
where
  go (codes : List Nat) : List UInt8 → Except (Malformed Reason) (List Nat)
    | [] => .ok codes.reverse
    | b :: rest =>
      if b = backslash then
        match _ : read names rest with
        | .error (length, reason) =>
          .error ⟨b, bytes.length - (rest.length + 1), length, reason⟩
        | .ok (new, left) => go (new.reverse ++ codes) left
      else go (b.toNat :: codes) rest
  termination_by left => left.length
  decreasing_by
    · have := read_length ‹_›
      simp only [List.length_cons]
      omega
    · simp

end ByteAsm.Text.Escape
