import ByteAsm.Proofs.Footprint
import ByteAsm.Proofs.Grammar
import ByteAsm.Proofs.Segmentation
import ByteAsm.Proofs.Written

/-! What a string puts into the data: the text that it spells, where there is room for it, and nothing but
ASCII, whatever its body. -/
namespace ByteAsm

open Source Text

namespace Source

open Pattern

theorem Form.matches_data {front body : List Char} (h : Form.data.pattern.Matches front [body]) :
    (Statement.data body).Matches front := by
  obtain ⟨word, spaced, _, _, rfl, ho, hword, hspaced⟩ := matches_seq_iff.1 h
  obtain ⟨rfl, rfl⟩ := matches_text_iff.1 hword
  obtain ⟨gap, quoted, _, _, rfl, rfl, hgap, hquoted⟩ := matches_seq_iff.1 hspaced
  obtain ⟨hne, hspace, rfl⟩ := matches_run_iff.1 hgap
  obtain ⟨opening, string, _, _, rfl, rfl, hopening, hstring⟩ := matches_seq_iff.1 hquoted
  obtain ⟨rfl, rfl⟩ := matches_text_iff.1 hopening
  obtain ⟨found, closing, _, _, rfl, rfl, hfound, hclosing⟩ := matches_seq_iff.1 hstring
  obtain ⟨rfl, rfl⟩ := matches_text_iff.1 hclosing
  cases hfound with
  | group hunits =>
    obtain ⟨hbody, rfl⟩ := matches_many_unit_iff.1 hunits
    cases ho
    exact ⟨hbody, gap, ⟨hne, hspace⟩, rfl⟩

end Source

namespace State

variable {names : CharacterNames} {text front rest body gap : List Char}

theorem stepWith_data (hbody : (Statement.data body).Matches front) (act : Statement.Meaning)
    (s : State) : (s.withText (front ++ rest)).stepWith Statement.read? act =
      (s.executeWith act (.data body)).retext (some rest) := by
  have hread : Statement.read? (skipBlanks (front ++ rest)) = some (.data body, rest) := by
    rw [hbody.skipBlanks_append]
    obtain ⟨hunits, gap, hgap, rfl⟩ := hbody
    simpa using read?_data hunits hgap rest
  exact stepWith_withText act hread s

theorem execute_data_ok {bytes : List UInt8} (h : bodyBytesWith names body = .ok bytes) (s : State) :
    s.executeWith (Statement.actionWith names) (.data body) = s.perform (.store .add bytes) :=
  executeWith_of_ok (by simp only [Statement.actionWith, h]) s

theorem execute_data_error {f : Fault} (h : bodyBytesWith names body = .error f) (s : State) :
    s.executeWith (Statement.actionWith names) (.data body) = ⟨s, [], some f⟩ :=
  executeWith_of_error (by simp only [Statement.actionWith, h]) s

/-- A string stores what is spelled. Whatever spelling is chosen for each character of an ASCII text and
whatever follows the closing quote, the step takes exactly the string, puts the codes of the text at the
next data addresses, if these are free, and changes nothing else. -/
theorem step_stores_spelled (hascii : ∀ c ∈ text, c.toNat < 0x80) (hspelled : Spelled text body)
    (hgap : SpaceRun gap) (rest : List Char) (s : State)
    (hroom : ∀ k < text.length, s.image[s.data + k]? = some 0) :
    let o := (s.withText (['.', 'a', 's', 'c', 'i', 'i'] ++ (gap ++ '"' :: (body ++ '"' :: rest)))).step
    o.fault = none ∧ o.notices = [.dataStored (asciiBytes text)] ∧
      o.state = { s with
        image := o.state.image
        text := some rest
        data := s.data + text.length } ∧
      s.image.Holds o.state.image s.data (asciiBytes text) := by
  intro o
  have hmatch : (Statement.data body).Matches
      (['.', 'a', 's', 'c', 'i', 'i'] ++ (gap ++ '"' :: (body ++ ['"']))) :=
    ⟨body_spelled hspelled, gap, hgap, rfl⟩
  have hstep : o = (s.execute (.data body)).retext (some rest) := by
    refine Eq.trans ?_ (stepWith_data hmatch Statement.action s)
    simp [o, step]
  have hlength : (asciiBytes text).length = text.length := by simp [asciiBytes]
  rw [← hlength] at hroom
  obtain ⟨hf, hnext, hholds⟩ := Image.place_on_zeros .add hroom
  have hstore : s.execute (.data body) = s.perform (.store .add (asciiBytes text)) :=
    execute_data_ok (bodyBytes_spelled hspelled hascii) s
  rw [hstep, hstore, perform_store]
  refine ⟨by simp [Outcome.retext, hf], by simp [Outcome.retext, hf], ?_, hholds⟩
  simp only [Outcome.retext, hnext, hlength]

/-- A digit behind an octal escape, a backslash before another escape, and text behind the string. -/
theorem step_stores_spelled_mixed :
    let s : State := ⟨#[0, 0, 0, 0, 0, 0], none, 0, 1, ∅, #[]⟩
    let text := ['1', '7', 'K', '\\', '"']
    let body := ['\\', '0', '6', '1', '7', '\\', 'u', '0', '0', '4', 'b', '\\', '\\',
      '\\', 'x', '2', '2']
    let o := (s.withText (['.', 'a', 's', 'c', 'i', 'i'] ++ ([' '] ++ '"' :: (body ++ '"' :: ['0'])))).step
    Spelled text body ∧ o.fault = none ∧ o.state.text = some ['0'] ∧ o.state.data = 6 ∧
      s.image.Holds o.state.image 1 [0x31, 0x37, 0x4B, 0x5C, 0x22] := by
  intro s text body o
  have hk : Spells 'K' ['\\', 'u', '0', '0', '4', 'b'] :=
    @Spells.hex 'K' 'u' '4' 'b' 2 4 11 (by decide) rfl (.inl rfl) (.inl rfl)
  have hquote : Spells '"' ['\\', 'x', '2', '2'] :=
    @Spells.hex '"' 'x' '2' '2' 0 2 2 (by decide) rfl (.inl rfl) (.inl rfl)
  have hspelled : Spelled text body :=
    .cons (.octal 0 6 1 rfl) (.cons (.plain (by decide) (by decide))
      (.cons hk (.cons (.letter (by decide)) (.cons hquote .nil))))
  have hgap : SpaceRun [' '] := ⟨by simp, List.all_eq_true.1 (by decide)⟩
  have hascii : ∀ c ∈ text, c.toNat < 0x80 := by simp [text]
  obtain ⟨hf, _, hstate, hholds⟩ := step_stores_spelled hascii hspelled hgap ['0'] s (by decide)
  refine ⟨hspelled, hf, ?_, ?_, hholds⟩
  · rw [show o.state = _ from hstate]
  · rw [show o.state = _ from hstate]
    rfl

/-- At each point of the reading of a string, what is left falls into bytes and pairs, and the reading is at
its end, goes on, or stops at once with a fault other than a lone backslash. -/
theorem step_data_reaches (hbody : (Statement.data body).Matches front) {codes : List Nat}
    {left : List UInt8} (h : Escape.Reaches names (body.flatMap String.utf8EncodeChar) codes left)
    (s : State) :
    Escape.Segmented left ∧
      (left = [] ∨ (∃ new next, Escape.Next names left new next) ∨
        ∃ length reason, reason ≠ .loneBackslash ∧ Escape.Fails names left (length, reason) ∧
          (s.withText (front ++ rest)).stepWith Statement.read? (Statement.actionWith names) =
            ⟨s.withText rest, [], some (.escape ⟨Escape.backslash,
              (body.flatMap String.utf8EncodeChar).length - left.length, length, reason⟩)⟩) := by
  have hleft := h.segmented (Escape.segmented_body hbody.1)
  refine ⟨hleft, ?_⟩
  rcases Escape.next_cases names left with hnil | hnext | ⟨⟨length, reason⟩, hfails⟩
  · exact .inl hnil
  · exact .inr (.inl hnext)
  · refine .inr (.inr ⟨length, reason, hleft.ne_loneBackslash hfails, hfails, ?_⟩)
    have hbytes : bodyBytesWith names body = .error (.escape ⟨Escape.backslash,
        (body.flatMap String.utf8EncodeChar).length - left.length, length, reason⟩) := by
      rw [bodyBytesWith, h.decode_eq_error hfails]
    rw [stepWith_data hbody, execute_data_error hbytes]
    rfl

theorem step_data_stores (names : CharacterNames) (hbody : (Statement.data body).Matches front)
    (s : State) :
    let o := (s.withText (front ++ rest)).stepWith Statement.read? (Statement.actionWith names)
    ∃ stored, ∃ k ≤ stored.length, stored.length ≤ body.length ∧ (∀ b ∈ stored, b.toNat < 0x80) ∧
      o.state = { s with image := o.state.image, text := some rest, data := s.data + k } ∧
      Image.PlacedFirst .add s.image o.state.image s.data stored k := by
  intro o
  rw [show o = _ from stepWith_data hbody _ s]
  cases hbytes : bodyBytesWith names body with
  | error f =>
    rw [execute_data_error hbytes]
    exact ⟨[], 0, Nat.le_refl _, Nat.zero_le _, by simp, rfl, Image.placedFirst_zero ..⟩
  | ok bytes =>
    obtain ⟨_, hascii, hlength⟩ := bodyBytesWith_eq_ok hbytes
    obtain ⟨k, hnext, hplaced, _⟩ := Image.exists_placedFirst .add s.image s.data bytes
    have hk : k ≤ bytes.length := by
      have hle := Image.next_place_le .add s.image s.data bytes
      omega
    rw [execute_data_ok hbytes, perform_store]
    refine ⟨bytes, k, hk, hlength, hascii, ?_, hplaced⟩
    simp only [Outcome.retext, hnext]

/-- Whatever the body of a string and whichever names of characters there are, the reading of its escapes
takes it apart as the search for its closing quote did, and nothing beyond ASCII gets through. At every step
of the reading the bytes that are left are bytes other than a quote and a backslash, and backslashes with a
byte behind each, and if an escape cannot be read the step stops there; it never stops at a backslash alone.
With a character beyond ASCII in its body a string is refused and nothing is stored. What is stored is ASCII
and not longer than the body. With `CharacterNames.latin` the step is the one of `State.step`. -/
theorem step_string_segmented (names : CharacterNames) (hfront : Form.data.pattern.Matches front [body])
    (rest : List Char) (s : State) :
    let o := (s.withText (front ++ rest)).stepWith Statement.read? (Statement.actionWith names)
    let bytes := body.flatMap String.utf8EncodeChar
    (∀ codes left, Escape.Reaches names bytes codes left → Escape.Segmented left ∧
      (left = [] ∨ (∃ new next, Escape.Next names left new next) ∨
        ∃ length reason, reason ≠ .loneBackslash ∧ Escape.Fails names left (length, reason) ∧
          o = ⟨s.withText rest, [], some (.escape
            ⟨Escape.backslash, bytes.length - left.length, length, reason⟩)⟩)) ∧
    (∀ m, Escape.decode names bytes = .error m → m.reason ≠ .loneBackslash) ∧
    ((∃ c ∈ body, 0x80 ≤ c.toNat) →
      ∃ f, o = ⟨s.withText rest, [], some f⟩ ∧ ((∃ m, f = .escape m) ∨ ∃ e, f = .ascii e)) ∧
    ∃ stored, ∃ k ≤ stored.length, stored.length ≤ body.length ∧ (∀ b ∈ stored, b.toNat < 0x80) ∧
      o.state = { s with image := o.state.image, text := some rest, data := s.data + k } ∧
      Image.PlacedFirst .add s.image o.state.image s.data stored k := by
  intro o bytes
  have hmatch := Form.matches_data hfront
  refine ⟨?_, ?_, ?_, step_data_stores names hmatch s⟩
  · intro codes left h
    exact step_data_reaches hmatch h s
  · intro m hm
    exact Escape.ne_loneBackslash_of_decode hmatch.1 hm
  · rintro ⟨c, hc, hhigh⟩
    cases hbytes : bodyBytesWith names body with
    | error f =>
      refine ⟨f, ?_, bodyBytesWith_eq_error hbytes⟩
      rw [show o = _ from stepWith_data hmatch _ s, execute_data_error hbytes]
      rfl
    | ok stored =>
      have hlow := (bodyBytesWith_eq_ok hbytes).1 c hc
      omega

/-- A character beyond ASCII by its name, an escape that is cut off, and a letter beyond ASCII. The name is
read, and the step stops at the escape. -/
theorem step_string_segmented_name :
    let names := CharacterNames.ofTable [("BULLET", 0x2022)]
    let s : State := ⟨#[0, 0], none, 0, 0, ∅, #[]⟩
    let body := '\\' :: 'N' :: (['{', 'B', 'u', 'l', 'l', 'e', 't', '}'] ++ ['\\', 'x', '4', '\u00E9'])
    let front := ['.', 'a', 's', 'c', 'i', 'i'] ++ ([' '] ++ (['"'] ++ (body ++ ['"'])))
    let left := Escape.backslash :: [0x78, 0x34, 0xC3, 0xA9]
    Form.data.pattern.Matches front [body] ∧
      Escape.Reaches names (body.flatMap String.utf8EncodeChar) [0x2022] left ∧
      Escape.Segmented left ∧
      (s.withText (front ++ ['"'])).stepWith Statement.read? (Statement.actionWith names) =
        ⟨s.withText ['"'], [], some (.escape ⟨Escape.backslash, 10, 3, .truncatedByte⟩)⟩ := by
  intro names s body front left
  have hcut : Body ['\\', 'x', '4', '\u00E9'] :=
    .pair (by decide) (.plain (by decide) (by decide) (.plain (by decide) (by decide) .nil))
  have hbody : Body body := .pair (by decide) (Body.plain_append (by simp) hcut)
  have hstring : Pattern.string.Matches (body ++ ['"']) [body] :=
    .seq (.group (Pattern.matches_many_unit_iff.2 ⟨hbody, rfl⟩)) (.text ['"'])
  have hspace : (Pattern.run isSpace).Matches [' '] [] :=
    Pattern.matches_run_iff.2 ⟨by simp, List.all_eq_true.1 (by decide), rfl⟩
  have hmatch : Form.data.pattern.Matches front [body] :=
    .seq (.text _) (.seq hspace (.seq (.text _) hstring))
  have hreaches : Escape.Reaches names (body.flatMap String.utf8EncodeChar) [0x2022] left :=
    .next .start (.escape (by rfl))
  have hfail : Escape.read names [0x78, 0x34, 0xC3, 0xA9] = .error (3, .truncatedByte) := by rfl
  obtain ⟨hall, _⟩ := step_string_segmented names hmatch ['"'] s
  obtain ⟨hsegmented, hnil | ⟨_, _, hnext⟩ | ⟨length, reason, _, ⟨tail, htail, hread⟩, hstep⟩⟩ :=
    hall _ (Escape.backslash :: [0x78, 0x34, 0xC3, 0xA9]) hreaches
  · cases hnil
  · cases hnext with
    | plain hb => exact absurd rfl hb
    | escape hread => cases hfail.symm.trans hread
  · cases htail
    cases hfail.symm.trans hread
    exact ⟨hmatch, hreaches, hsegmented, hstep⟩

end State

end ByteAsm
