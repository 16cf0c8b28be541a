import ByteAsm.Assembly.Action
import ByteAsm.Proofs.CharacterClass

/-! Text in a string. There are several ways to spell a character, and an ASCII text that is spelled
character by character is read as a whole and gives its own bytes back. To put a backslash before each quote
and each backslash is one such way. -/
namespace ByteAsm

open Text

namespace Text

def asciiBytes (text : List Char) : List UInt8 := text.map fun c => UInt8.ofNat c.toNat

/-- Put a backslash before each quote and each backslash. -/
def escape : List Char → List Char
  | [] => []
  | c :: text => if c = '"' ∨ c = '\\' then '\\' :: c :: escape text else c :: escape text

def letterEscapes : List (Char × Char) :=
  [('\\', '\\'), ('\x27', '\x27'), ('"', '"'), ('a', '\x07'), ('b', '\x08'), ('f', '\x0C'),
   ('n', '\n'), ('r', '\r'), ('t', '\t'), ('v', '\x0B')]

/-- The letters of the escapes in hexadecimal digits, with the number of zeros in front of the last two. -/
def hexEscapes : List (Char × Nat) := [('x', 0), ('u', 2), ('U', 6)]

/-- The hexadecimal digit of a value, in lower or in upper case. -/
def IsHexDigitOf (n : Fin 16) (d : Char) : Prop :=
  d = Nat.digitChar n ∨ d = (Nat.digitChar n).toUpper

/-- The ways to spell a character in a string. -/
inductive Spells : Char → List Char → Prop
  | plain {c : Char} (hquote : c ≠ '"') (hback : c ≠ '\\') : Spells c [c]
  | letter {c l : Char} (h : (l, c) ∈ letterEscapes) : Spells c ['\\', l]
  | octal {c : Char} (i j k : Fin 8) (hc : c.toNat = 64 * i + 8 * j + k) :
      Spells c ['\\', Nat.digitChar i, Nat.digitChar j, Nat.digitChar k]
  | hex {c l d e : Char} {zeros : Nat} (i j : Fin 16) (hl : (l, zeros) ∈ hexEscapes)
      (hc : c.toNat = 16 * i + j) (hd : IsHexDigitOf i d) (he : IsHexDigitOf j e) :
      Spells c ('\\' :: l :: (List.replicate zeros '0' ++ [d, e]))

inductive Spelled : List Char → List Char → Prop
  | nil : Spelled [] []
  | cons {c : Char} {text piece body : List Char} (hc : Spells c piece) (htext : Spelled text body) :
      Spelled (c :: text) (piece ++ body)

theorem utf8EncodeChar_ascii {c : Char} (h : c.toNat < 0x80) :
    String.utf8EncodeChar c = [UInt8.ofNat c.toNat] := by
  have hle : c.toNat ≤ 0x7F := by omega
  simp [String.utf8EncodeChar, hle]

theorem flatMap_utf8EncodeChar_ascii {text : List Char} (h : ∀ c ∈ text, c.toNat < 0x80) :
    text.flatMap String.utf8EncodeChar = asciiBytes text := by
  induction text with
  | nil => rfl
  | cons c text ih =>
    rw [List.flatMap_cons, utf8EncodeChar_ascii (h c List.mem_cons_self),
      ih fun d hd => h d (List.mem_cons_of_mem c hd)]
    rfl

theorem toNat_ofNat_ascii {c : Char} (h : c.toNat < 0x80) :
    (UInt8.ofNat c.toNat).toNat = c.toNat := by
  rw [UInt8.toNat_ofNat']
  omega

theorem hexValue_zeros (n : Nat) (codes : List Nat) :
    hexValue (List.replicate n 0x30 ++ codes) = hexValue codes := by
  induction n with
  | zero => rfl
  | succ n ih => exact ih

theorem ofNat_eq_backslash_iff {c : Char} (h : c.toNat < 0x80) :
    UInt8.ofNat c.toNat = Escape.backslash ↔ c = '\\' :=
  of_ascii (p := fun c => UInt8.ofNat c.toNat = Escape.backslash ↔ c = '\\') (by decide +kernel) h

theorem IsHexDigitOf.value {n : Fin 16} {d : Char} (h : IsHexDigitOf n d) :
    hexDigitValue? d.toNat = some n.val := by
  have hdigit : ∀ n : Fin 16, hexDigitValue? (Nat.digitChar n).toNat = some n.val ∧
      hexDigitValue? (Nat.digitChar n).toUpper.toNat = some n.val := by decide
  rcases h with rfl | rfl
  · exact (hdigit n).1
  · exact (hdigit n).2

theorem IsHexDigitOf.ascii {n : Fin 16} {d : Char} (h : IsHexDigitOf n d) : d.toNat < 0x80 := by
  have hdigit : ∀ n : Fin 16, (Nat.digitChar n).toNat < 0x80 ∧
      (Nat.digitChar n).toUpper.toNat < 0x80 := by decide
  rcases h with rfl | rfl
  · exact (hdigit n).1
  · exact (hdigit n).2

theorem Spells.ascii {c : Char} {piece : List Char} (h : Spells c piece) (hc : c.toNat < 0x80) :
    ∀ d ∈ piece, d.toNat < 0x80 := by
  cases h with
  | plain => simpa using hc
  | letter h =>
    have hall : ∀ p ∈ letterEscapes, p.1.toNat < 0x80 := by decide
    simpa using hall _ h
  | octal i j k =>
    have hall : ∀ i : Fin 8, (Nat.digitChar i).toNat < 0x80 := by decide
    simp [hall]
  | hex i j hl _ hd he =>
    have hall : ∀ p ∈ hexEscapes, p.1.toNat < 0x80 := by decide
    have hl := hall _ hl
    intro a ha
    simp only [List.mem_cons, List.mem_append, List.mem_replicate, List.not_mem_nil, or_false] at ha
    rcases ha with rfl | rfl | ⟨_, rfl⟩ | rfl | rfl
    · decide
    · exact hl
    · decide
    · exact hd.ascii
    · exact he.ascii

namespace Escape

variable {names : CharacterNames} {bytes rest : List UInt8} {codes : List Nat} {b : UInt8}

theorem decode_go_nil : decode.go names bytes codes [] = .ok codes.reverse := by
  rw [decode.go]

theorem decode_go_plain (h : b ≠ backslash) :
    decode.go names bytes codes (b :: rest) = decode.go names bytes (b.toNat :: codes) rest := by
  rw [decode.go, if_neg h]

theorem decode_go_escape {new : List Nat} {left : List UInt8} (h : read names rest = .ok (new, left)) :
    decode.go names bytes codes (backslash :: rest) = decode.go names bytes (new.reverse ++ codes) left := by
  rw [decode.go, if_pos rfl]
  split
  · rename_i he
    rw [h] at he
    cases he
  · rename_i he
    rw [h] at he
    cases he
    rfl

theorem read_letter {l c : Char} (h : (l, c) ∈ letterEscapes) (rest : List UInt8) :
    read names (UInt8.ofNat l.toNat :: rest) = .ok ([c.toNat], rest) := by
  have hall : ∀ p ∈ letterEscapes,
      simple? (Char.ofUInt8 (UInt8.ofNat p.1.toNat)) = some [p.2.toNat] := by decide
  simp only [read, hall _ h]

theorem read_octal (i j k : Fin 8) (rest : List UInt8) :
    read names (asciiBytes [Nat.digitChar i, Nat.digitChar j, Nat.digitChar k] ++ rest) =
      .ok ([64 * i + 8 * j + k], rest) := by
  have hdigit : ∀ i : Fin 8, simple? (Char.ofUInt8 (UInt8.ofNat (Nat.digitChar i).toNat)) = none ∧
      isOctal (UInt8.ofNat (Nat.digitChar i).toNat) = true ∧
      (UInt8.ofNat (Nat.digitChar i).toNat).toNat - 0x30 = i.val := by decide
  simp only [asciiBytes, List.map_cons, List.map_nil, List.cons_append, List.nil_append, read,
    hdigit, if_true, readOctal, List.take_succ_cons, List.take_zero, List.takeWhile_cons,
    List.takeWhile_nil, octalValue, List.foldl_cons, List.foldl_nil, List.length_cons,
    List.length_nil, List.drop_succ_cons, List.drop_zero, Except.ok.injEq, Prod.mk.injEq,
    List.cons.injEq, and_true]
  omega

theorem readHex_append {digits : List UInt8} (reason : Reason) (hdigits : ∀ b ∈ digits, isHex b = true)
    (hcode : hexValue (digits.map UInt8.toNat) ≤ 0x10FFFF) (rest : List UInt8) :
    readHex digits.length reason (digits ++ rest) =
      .ok ([hexValue (digits.map UInt8.toNat)], rest) := by
  have htake : ((digits ++ rest).take digits.length).takeWhile isHex = digits := by
    rw [List.take_left]
    simpa using @List.takeWhile_append_of_pos _ isHex digits [] hdigits
  simp only [readHex, htake, List.drop_left, Nat.lt_irrefl, if_false, Nat.not_lt.2 hcode]

theorem read_hex {l d e : Char} {zeros : Nat} {i j : Fin 16} (hl : (l, zeros) ∈ hexEscapes)
    (hd : IsHexDigitOf i d) (he : IsHexDigitOf j e) (rest : List UInt8) :
    read names (asciiBytes (l :: (List.replicate zeros '0' ++ [d, e])) ++ rest) =
      .ok ([16 * i + j], rest) := by
  let digits := asciiBytes (List.replicate zeros '0' ++ [d, e])
  have hdigits : ∀ b ∈ digits, isHex b = true := by
    intro b hb
    simp only [digits, asciiBytes, List.map_append, List.map_replicate, List.map_cons, List.map_nil,
      List.mem_append, List.mem_replicate, List.mem_cons, List.not_mem_nil, or_false] at hb
    rcases hb with ⟨_, rfl⟩ | rfl | rfl
    · decide
    · rw [isHex, toNat_ofNat_ascii hd.ascii, hd.value, Option.isSome_some]
    · rw [isHex, toNat_ofNat_ascii he.ascii, he.value, Option.isSome_some]
  have hvalue : hexValue (digits.map UInt8.toNat) = 16 * i + j := by
    have hcodes : digits.map UInt8.toNat = List.replicate zeros 0x30 ++ [d.toNat, e.toNat] := by
      simp [digits, asciiBytes, toNat_ofNat_ascii hd.ascii, toNat_ofNat_ascii he.ascii]
    rw [hcodes, hexValue_zeros]
    simp [hexValue, hd.value, he.value]
  have hread := fun reason => readHex_append reason hdigits (by omega) rest
  rw [hvalue] at hread
  simp only [hexEscapes, List.mem_cons, Prod.mk.injEq, List.not_mem_nil, or_false] at hl
  rcases hl with ⟨rfl, rfl⟩ | ⟨rfl, rfl⟩ | ⟨rfl, rfl⟩
  · exact hread .truncatedByte
  · exact hread .truncatedShort
  · exact hread .truncatedLong

/-- Reading a spelling of a character gives this character, whatever follows it. -/
theorem decode_go_spells {c : Char} {piece : List Char} (h : Spells c piece) (hc : c.toNat < 0x80)
    (rest : List UInt8) :
    decode.go names bytes codes (asciiBytes piece ++ rest) =
      decode.go names bytes (c.toNat :: codes) rest := by
  cases h with
  | plain hquote hback =>
    have hne : UInt8.ofNat c.toNat ≠ backslash := fun h => hback ((ofNat_eq_backslash_iff hc).1 h)
    exact (decode_go_plain hne).trans (by rw [toNat_ofNat_ascii hc]; rfl)
  | letter h => exact decode_go_escape (read_letter h rest)
  | octal i j k hcode =>
    rw [hcode]
    exact decode_go_escape (read_octal i j k rest)
  | hex i j hl hcode hd he =>
    rw [hcode]
    exact decode_go_escape (read_hex hl hd he rest)

theorem decode_go_spelled {text body : List Char} (h : Spelled text body)
    (hascii : ∀ c ∈ text, c.toNat < 0x80) :
    decode.go names bytes codes (asciiBytes body) = .ok (codes.reverse ++ text.map Char.toNat) := by
  induction h generalizing codes with
  | nil => simp [asciiBytes, decode_go_nil]
  | @cons c text piece body hc _ ih =>
    rw [asciiBytes, List.map_append]
    refine (decode_go_spells hc (hascii c List.mem_cons_self) _).trans ?_
    exact (ih fun d hd => hascii d (List.mem_cons_of_mem c hd)).trans (by simp)

end Escape

theorem spelled_escape (text : List Char) : Spelled text (escape text) := by
  induction text with
  | nil => exact .nil
  | cons c text ih =>
    by_cases he : c = '"' ∨ c = '\\'
    · have hc : Spells c ['\\', c] := by
        rcases he with rfl | rfl <;> exact .letter (by decide)
      rw [escape, if_pos he]
      exact .cons hc ih
    · obtain ⟨hquote, hback⟩ := not_or.1 he
      rw [escape, if_neg he]
      exact .cons (.plain hquote hback) ih

theorem Spelled.ascii {text body : List Char} (h : Spelled text body)
    (hascii : ∀ c ∈ text, c.toNat < 0x80) : ∀ d ∈ body, d.toNat < 0x80 := by
  induction h with
  | nil => simp
  | @cons c text piece body hc _ ih =>
    intro d hd
    rcases List.mem_append.1 hd with hd | hd
    · exact hc.ascii (hascii c List.mem_cons_self) d hd
    · exact ih (fun e he => hascii e (List.mem_cons_of_mem c he)) d hd

end Text

namespace Source

/-- The bytes of a spelled text are those of the text. -/
theorem bodyBytes_spelled {text body : List Char} (h : Spelled text body)
    (hascii : ∀ c ∈ text, c.toNat < 0x80) : bodyBytes body = .ok (asciiBytes text) := by
  have hdecode : Escape.decode .latin (asciiBytes body) = .ok (text.map Char.toNat) :=
    Escape.decode_go_spelled h hascii
  have hencode : Ascii.encode (text.map Char.toNat) = .ok (asciiBytes text) := by
    refine Ascii.encode_eq_ok_iff.2 ⟨?_, by simp [asciiBytes]⟩
    intro n hn
    obtain ⟨c, hc, rfl⟩ := List.mem_map.1 hn
    exact hascii c hc
  rw [bodyBytes, bodyBytesWith, flatMap_utf8EncodeChar_ascii (h.ascii hascii), hdecode]
  simp only [hencode]

theorem bodyBytes_escape {text : List Char} (h : ∀ c ∈ text, c.toNat < 0x80) :
    bodyBytes (escape text) = .ok (asciiBytes text) :=
  bodyBytes_spelled (spelled_escape text) h

/-- The body of a string: characters other than a quote and a backslash, and backslashes with a
character behind each that does not end the line. -/
inductive Body : List Char → Prop
  | nil : Body []
  | plain {c : Char} {body : List Char} (hquote : c ≠ '"') (hback : c ≠ '\\') (hbody : Body body) :
      Body (c :: body)
  | pair {c : Char} {body : List Char} (hline : c ≠ '\n') (hbody : Body body) :
      Body ('\\' :: c :: body)

theorem Body.plain_append {front body : List Char} (hfront : ∀ c ∈ front, c ≠ '"' ∧ c ≠ '\\')
    (hbody : Body body) : Body (front ++ body) := by
  induction front with
  | nil => exact hbody
  | cons c front ih =>
    obtain ⟨hquote, hback⟩ := hfront c List.mem_cons_self
    exact .plain hquote hback (ih fun d hd => hfront d (List.mem_cons_of_mem c hd))

theorem Body.spells_append {c : Char} {piece body : List Char} (hc : Spells c piece)
    (hbody : Body body) : Body (piece ++ body) := by
  cases hc with
  | plain hquote hback => exact .plain hquote hback hbody
  | letter h =>
    have hall : ∀ p ∈ letterEscapes, p.1 ≠ '\n' := by decide
    exact .pair (hall _ h) hbody
  | octal i j k =>
    have hall : ∀ i : Fin 8, Nat.digitChar i ≠ '\n' ∧ Nat.digitChar i ≠ '"' ∧
        Nat.digitChar i ≠ '\\' := by decide
    exact .pair (hall i).1 (.plain (hall j).2.1 (hall j).2.2 (.plain (hall k).2.1 (hall k).2.2 hbody))
  | hex i j hl _ hd he =>
    have hall : ∀ p ∈ hexEscapes, p.1 ≠ '\n' := by decide
    refine .pair (hall _ hl) (Body.plain_append ?_ hbody)
    have hplain : ∀ {n : Fin 16} {d : Char}, IsHexDigitOf n d → d ≠ '"' ∧ d ≠ '\\' := by
      intro n d hd
      constructor <;> rintro rfl <;> cases hd.value
    intro a ha
    rcases List.mem_append.1 ha with hzero | hlast
    · rw [(List.mem_replicate.1 hzero).2]
      decide
    · simp only [List.mem_cons, List.not_mem_nil, or_false] at hlast
      rcases hlast with rfl | rfl
      · exact hplain hd
      · exact hplain he

theorem body_spelled {text body : List Char} (h : Spelled text body) : Body body := by
  induction h with
  | nil => exact .nil
  | cons hc _ ih => exact ih.spells_append hc

theorem body_escape (text : List Char) : Body (escape text) := body_spelled (spelled_escape text)

theorem Body.readBody?_go {body : List Char} (h : Body body) (front rest : List Char) :
    readBody?.go front (body ++ '"' :: rest) = some (front.reverse ++ body, rest) := by
  induction h generalizing front with
  | nil => simp [readBody?.go]
  | plain hquote hback _ ih =>
    rw [List.cons_append, readBody?.go]
    · simp [ih]
    · exact hquote
    · exact hback
  | pair hline _ ih =>
    rw [List.cons_append, List.cons_append, readBody?.go]
    simp [hline, ih]

theorem Body.readBody?_append {body : List Char} (h : Body body) (rest : List Char) :
    readBody? (body ++ '"' :: rest) = some (body, rest) :=
  h.readBody?_go [] rest

end Source

end ByteAsm
