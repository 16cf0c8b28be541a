import ByteAsm.Proofs.BlockComment
import ByteAsm.Proofs.LineComment
import ByteAsm.Proofs.Progress
import ByteAsm.Proofs.TrialOrder

/-! What is skipped in front of a statement. Blanks are runs of white space, comments through the end of a
line or a `$`, and comments from `/*` through `*/`. The first characters of a text tell which of them can
stand there, and the longest one is dropped, until there is none. -/
namespace ByteAsm

open Text

namespace Source

open Pattern

inductive BlankKind
  | space
  | line
  | block
  deriving DecidableEq

namespace BlankKind

def trialOrder : List BlankKind := [space, line, block]

def pattern : BlankKind → Pattern
  | space => run isSpace
  | line =>
    seq (alt (text ['#']) (text ['/', '/']))
      (seq (many (one (· ≠ '\n'))) (one fun c => c = '\n' ∨ c = '$'))
  | block => seq (text ['/', '*']) (seq (many (one fun _ => true)) (text ['*', '/']))

def after? : BlankKind → List Char → Option (List Char)
  | space => afterSpace?
  | line => afterLineComment?
  | block => afterBlockComment?

def kind? : List Char → Option BlankKind
  | '#' :: _ => some line
  | '/' :: '/' :: _ => some line
  | '/' :: '*' :: _ => some block
  | c :: _ => if isSpace c then some space else none
  | [] => none

end BlankKind

def Pattern.blank : Pattern :=
  alt BlankKind.space.pattern (alt BlankKind.line.pattern BlankKind.block.pattern)

/-- Blanks in front of a rest. Each of them is the longest blank at the front of the text from it on, and
there is none at the front of the rest. -/
def Blanks : List (List Char) → List Char → Prop
  | [], rest => Pattern.blank.Misses rest
  | x :: xs, rest => Pattern.blank.Longest (x ++ (xs.flatten ++ rest)) x ∧ Blanks xs rest

namespace Pattern

/-- The longest match at the front of a text is cut off, if there is one. -/
structure Cuts (r : Pattern) (behind : List Char → Option (List Char)) : Prop where
  longest : ∀ {text rest}, behind text = some rest → ∃ x, text = x ++ rest ∧ r.Longest text x
  misses : ∀ {text}, behind text = none → r.Misses text

variable {r q : Pattern} {x y rest text : List Char} {f g : List Char → Option (List Char)}

theorem accepts_alt_iff : (alt r q).Accepts x ↔ r.Accepts x ∨ q.Accepts x := by
  constructor
  · rintro ⟨o, hmatch⟩
    cases hmatch with
    | left hmatch => exact .inl ⟨o, hmatch⟩
    | right hmatch => exact .inr ⟨o, hmatch⟩
  · rintro (⟨o, hmatch⟩ | ⟨o, hmatch⟩)
    · exact ⟨o, .left hmatch⟩
    · exact ⟨o, .right hmatch⟩

theorem Longest.eq (hx : r.Longest text x) (hy : r.Longest text y) : x = y := by
  have hle := hy.length_le x hx.start hx.accepts
  have hge := hx.length_le y hy.start hy.accepts
  exact (List.prefix_of_prefix_length_le hx.start hy.start hle).eq_of_length (Nat.le_antisymm hle hge)

theorem longest_of_least (hx : r.Accepts x)
    (hleast : ∀ y more, x ++ rest = y ++ more → r.Accepts y → rest.length ≤ more.length) :
    r.Longest (x ++ rest) x where
  start := List.prefix_append x rest
  accepts := hx
  length_le := by
    rintro y ⟨more, hy⟩ haccepts
    have hle := hleast y more hy.symm haccepts
    have hlength := congrArg List.length hy
    simp only [List.length_append] at hlength
    omega

theorem Reads.cuts {captured : Unit → List (List Char)}
    (h : r.Reads (fun text => (f text).map fun rest => ((), rest)) captured) : r.Cuts f where
  longest := by
    intro text rest hf
    obtain ⟨x, rfl, hx⟩ := h.finds (a := ()) (by rw [hf]; rfl)
    exact ⟨x, rfl, hx.longest⟩
  misses := by
    intro text hf
    exact h.misses (by rw [hf]; rfl)

theorem Cuts.alt (hf : r.Cuts f) (hg : q.Cuts g) (hne : ∀ text, r.Begins text → q.Misses text) :
    (alt r q).Cuts fun text => (f text).or (g text) where
  longest := by
    intro text rest h
    rcases Option.or_eq_some_iff.1 h with h | ⟨hnone, h⟩
    · obtain ⟨x, he, hstart, haccepts, hle⟩ := hf.longest h
      refine ⟨x, he, hstart, accepts_alt_iff.2 (.inl haccepts), ?_⟩
      intro y hy hmatch
      have hmiss := hne text ⟨x, hstart, haccepts⟩ y hy
      exact hle y hy ((accepts_alt_iff.1 hmatch).resolve_right hmiss)
    · obtain ⟨x, he, hstart, haccepts, hle⟩ := hg.longest h
      refine ⟨x, he, hstart, accepts_alt_iff.2 (.inr haccepts), ?_⟩
      intro y hy hmatch
      exact hle y hy ((accepts_alt_iff.1 hmatch).resolve_left (hf.misses hnone y hy))
  misses := by
    intro text h y hy hmatch
    obtain ⟨hnone, hnone'⟩ := Option.or_eq_none_iff.1 h
    rcases accepts_alt_iff.1 hmatch with hmatch | hmatch
    · exact hf.misses hnone y hy hmatch
    · exact hg.misses hnone' y hy hmatch

end Pattern

variable {x text body rest : List Char}

theorem afterLast?_go_ne_none (mark found text : List Char) :
    afterLast?.go mark (some found) text ≠ none := by
  induction text generalizing found with
  | nil => exact Option.some_ne_none found
  | cons c text ih =>
    rw [afterLast?.go]
    cases after? mark (c :: text) with
    | none => exact ih found
    | some rest => exact ih rest

theorem length_le_of_afterLast? {c : Char} {cs front more : List Char}
    (h : afterLast? (c :: cs) (front ++ (c :: cs ++ more)) = some rest) : rest.length ≤ more.length := by
  rw [afterLast?, afterLast?_go_append] at h
  rcases afterLast?_go_eq_append h with h | ⟨between, he⟩
  · cases h
    exact Nat.le_refl _
  · have hlength := congrArg List.length he
    simp only [List.length_append, List.length_cons] at hlength
    omega

theorem lineCommentBody?_eq_some_iff : lineCommentBody? text = some body ↔
    ∃ mark, (mark = ['#'] ∨ mark = ['/', '/']) ∧ text = mark ++ body := by
  constructor
  · intro h
    unfold lineCommentBody? at h
    split at h
    · cases h
      exact ⟨['#'], .inl rfl, rfl⟩
    · cases h
      exact ⟨['/', '/'], .inr rfl, rfl⟩
    · cases h
  · rintro ⟨_, rfl | rfl, rfl⟩
    · rfl
    · rfl

namespace BlankKind

theorem accepts_line_iff : line.pattern.Accepts x ↔
    ∃ mark body c, (mark = ['#'] ∨ mark = ['/', '/']) ∧ '\n' ∉ body ∧ (c = '\n' ∨ c = '$') ∧
      x = mark ++ (body ++ [c]) := by
  constructor
  · rintro ⟨_, hmatch⟩
    obtain ⟨mark, tail, _, _, rfl, _, hmark, htail⟩ := matches_seq_iff.1 hmatch
    obtain ⟨body, last, _, _, rfl, _, hbody, hlast⟩ := matches_seq_iff.1 htail
    have hmark : mark = ['#'] ∨ mark = ['/', '/'] := by
      rcases accepts_alt_iff.1 ⟨_, hmark⟩ with ⟨_, hmark⟩ | ⟨_, hmark⟩
      · exact .inl (matches_text_iff.1 hmark).1
      · exact .inr (matches_text_iff.1 hmark).1
    have hline : '\n' ∉ body := fun hmem => absurd ((matches_many_one_iff.1 hbody).1 _ hmem) (by decide)
    cases hlast with
    | @one _ c hc => exact ⟨mark, body, c, hmark, hline, of_decide_eq_true hc, rfl⟩
  · rintro ⟨mark, body, c, hmark, hbody, hc, rfl⟩
    have hline : (many (one (· ≠ '\n'))).Matches body [] := by
      refine matches_many_one_iff.2 ⟨?_, rfl⟩
      intro d hd
      exact decide_eq_true (ne_of_mem_of_not_mem hd hbody)
    have hmatch : (alt (Pattern.text ['#']) (Pattern.text ['/', '/'])).Matches mark [] := by
      rcases hmark with rfl | rfl
      · exact .left (.text _)
      · exact .right (.text _)
    exact ⟨_, .seq hmatch (.seq hline (.one (decide_eq_true hc)))⟩

theorem accepts_block_iff : block.pattern.Accepts x ↔ ∃ body, x = blockComment body := by
  constructor
  · rintro ⟨_, hmatch⟩
    obtain ⟨start, tail, _, _, rfl, _, hstart, htail⟩ := matches_seq_iff.1 hmatch
    obtain ⟨body, last, _, _, rfl, _, _, hlast⟩ := matches_seq_iff.1 htail
    obtain ⟨rfl, _⟩ := matches_text_iff.1 hstart
    obtain ⟨rfl, _⟩ := matches_text_iff.1 hlast
    exact ⟨body, rfl⟩
  · rintro ⟨body, rfl⟩
    have hbody : (many (one fun _ => true)).Matches body [] := matches_many_one_iff.2 ⟨by simp, rfl⟩
    exact ⟨_, .seq (.text ['/', '*']) (.seq hbody (.text ['*', '/']))⟩

theorem cuts_space : space.pattern.Cuts afterSpace? := reads_space.cuts

theorem lineCommentBody?_of_accepts (h : line.pattern.Accepts x) (more : List Char) :
    ∃ front c, lineCommentBody? (x ++ more) = some (front ++ c :: more) ∧ '\n' ∉ front ∧
      (c = '\n' ∨ c = '$') := by
  obtain ⟨mark, front, c, hmark, hfront, hc, rfl⟩ := accepts_line_iff.1 h
  exact ⟨front, c, lineCommentBody?_eq_some_iff.2 ⟨mark, hmark, by simp⟩, hfront, hc⟩

/-- A comment that ends with `c` is the longest one if no other end is behind it. -/
theorem longest_line {front : List Char} {c : Char}
    (hbody : lineCommentBody? text = some (front ++ c :: rest)) (hfront : '\n' ∉ front)
    (hc : c = '\n' ∨ c = '$')
    (hleast : ∀ front' c' more, front ++ c :: rest = front' ++ c' :: more → '\n' ∉ front' →
      c' = '\n' ∨ c' = '$' → rest.length ≤ more.length) :
    ∃ x, text = x ++ rest ∧ line.pattern.Longest text x := by
  obtain ⟨mark, hmark, htext⟩ := lineCommentBody?_eq_some_iff.1 hbody
  have he : text = mark ++ (front ++ [c]) ++ rest := by simp [htext]
  refine ⟨_, he, ?_⟩
  rw [he] at hbody ⊢
  apply longest_of_least (accepts_line_iff.2 ⟨mark, front, c, hmark, hfront, hc, rfl⟩)
  intro y more hy haccepts
  obtain ⟨front', c', hbody', hfront', hc'⟩ := lineCommentBody?_of_accepts haccepts more
  rw [← hy, hbody] at hbody'
  exact hleast front' c' more (Option.some.inj hbody') hfront' hc'

theorem length_le_of_line {front front' more : List Char} {c : Char}
    (he : front ++ '\n' :: rest = front' ++ c :: more) (hfront' : '\n' ∉ front') :
    rest.length ≤ more.length := by
  rcases List.append_eq_append_iff.1 he with ⟨between, rfl, hrest⟩ | ⟨between, _, hmore⟩
  · cases between with
    | nil =>
      cases hrest
      exact Nat.le_refl _
    | cons d between =>
      cases hrest
      simp at hfront'
  · have hlength := congrArg List.length hmore
    simp only [List.length_append, List.length_cons] at hlength
    omega

theorem cuts_line : line.pattern.Cuts afterLineComment? where
  longest := by
    intro text rest h
    cases hb : lineCommentBody? text with
    | none => simp [afterLineComment?, hb] at h
    | some body =>
      by_cases hline : '\n' ∈ body
      · obtain ⟨front, tail, rfl, hfront⟩ := List.eq_append_cons_of_mem hline
        rw [afterLineComment?_of_body hb hfront] at h
        cases h
        apply longest_line hb hfront (.inl rfl)
        intro front' c more he hfront' _
        exact length_le_of_line he hfront'
      · rw [afterLineComment?_of_not_mem hb hline] at h
        obtain ⟨front, rfl⟩ := afterLast?_eq_append h
        rw [List.singleton_append] at h hb hline
        apply longest_line hb (fun hmem => hline (List.mem_append_left _ hmem)) (.inr rfl)
        rintro front' c more he _ (rfl | rfl)
        · exact absurd (by simp [he]) hline
        · rw [he] at h
          exact length_le_of_afterLast? h
  misses := by
    rintro text h y ⟨more, rfl⟩ haccepts
    obtain ⟨front, c, hb, hfront, rfl | rfl⟩ := lineCommentBody?_of_accepts haccepts more
    · rw [afterLineComment?_of_body hb hfront] at h
      cases h
    · by_cases hline : '\n' ∈ front ++ '$' :: more
      · obtain ⟨before, tail, he, hbefore⟩ := List.eq_append_cons_of_mem hline
        rw [he] at hb
        rw [afterLineComment?_of_body hb hbefore] at h
        cases h
      · rw [afterLineComment?_of_not_mem hb hline, afterLast?_dollar_of_mem (by simp)] at h
        cases h

theorem cuts_block : block.pattern.Cuts afterBlockComment? where
  longest := by
    intro text rest h
    unfold afterBlockComment? at h
    split at h
    · rename_i body
      obtain ⟨front, rfl⟩ := afterLast?_eq_append h
      have he : '/' :: '*' :: (front ++ (['*', '/'] ++ rest)) = blockComment front ++ rest := by
        simp [blockComment]
      refine ⟨blockComment front, he, ?_⟩
      rw [he]
      apply longest_of_least (accepts_block_iff.2 ⟨front, rfl⟩)
      intro y more hy haccepts
      obtain ⟨front', rfl⟩ := accepts_block_iff.1 haccepts
      rw [show front ++ (['*', '/'] ++ rest) = front' ++ (['*', '/'] ++ more) by
        simpa [blockComment] using hy] at h
      exact length_le_of_afterLast? h
    · cases h
  misses := by
    rintro text h y ⟨more, rfl⟩ haccepts
    obtain ⟨body, rfl⟩ := accepts_block_iff.1 haccepts
    have hlast : afterLast? ['*', '/'] (body ++ (['*', '/'] ++ more)) = none := by
      simpa [blockComment, afterBlockComment?] using h
    rw [afterLast?, afterLast?_go_append] at hlast
    exact afterLast?_go_ne_none _ more _ hlast

/-- The first characters of a text tell which kind of blank stands there. -/
theorem kind?_of_begins {kind : BlankKind} (h : kind.pattern.Begins text) : kind? text = some kind := by
  obtain ⟨x, ⟨rest, rfl⟩, haccepts⟩ := h
  cases kind with
  | space =>
    obtain ⟨_, hmatch⟩ := haccepts
    obtain ⟨hne, hspace, _⟩ := matches_run_iff.1 hmatch
    obtain ⟨c, x, rfl⟩ := List.exists_cons_of_ne_nil hne
    have hc := hspace c List.mem_cons_self
    have hmark : c ≠ '#' ∧ c ≠ '/' := by
      constructor <;> rintro rfl <;> exact absurd hc (by decide)
    simp [kind?, hmark, hc]
  | line =>
    obtain ⟨mark, body, c, rfl | rfl, _, _, rfl⟩ := accepts_line_iff.1 haccepts
    · rfl
    · rfl
  | block =>
    obtain ⟨body, rfl⟩ := accepts_block_iff.1 haccepts
    rfl

theorem eq_of_begins {kind other : BlankKind} (h : kind.pattern.Begins text)
    (hother : other.pattern.Begins text) : kind = other :=
  Option.some.inj ((kind?_of_begins h).symm.trans (kind?_of_begins hother))

theorem misses_of_begins {kind other : BlankKind} (h : kind.pattern.Begins text) (hne : kind ≠ other) :
    other.pattern.Misses text := by
  by_contra hmiss
  exact hne (eq_of_begins h (begins_iff_not_misses.2 hmiss))

theorem cuts (kind : BlankKind) : kind.pattern.Cuts kind.after? := by
  cases kind with
  | space => exact cuts_space
  | line => exact cuts_line
  | block => exact cuts_block

end BlankKind

theorem cuts_afterBlank? : Pattern.blank.Cuts afterBlank? := by
  have hcomment := BlankKind.cuts_line.alt BlankKind.cuts_block fun text h =>
    BlankKind.misses_of_begins h (by simp)
  have hblank := BlankKind.cuts_space.alt hcomment fun text h x hx haccepts => by
    rcases accepts_alt_iff.1 haccepts with haccepts | haccepts
    · exact BlankKind.misses_of_begins h (by simp) x hx haccepts
    · exact BlankKind.misses_of_begins h (by simp) x hx haccepts
  refine ⟨fun h => hblank.longest ?_, fun h => hblank.misses ?_⟩ <;>
    simpa [afterBlank?] using h

theorem findSome?_after? {order : List BlankKind} (h : order.Perm BlankKind.trialOrder)
    (text : List Char) : order.findSome? (·.after? text) = afterBlank? text := by
  have hagree : ∀ kind other : BlankKind, ∀ a b, kind.after? text = some a → other.after? text = some b →
      a = b := by
    intro kind other a b ha hb
    obtain ⟨x, _, hx⟩ := kind.cuts.longest ha
    obtain ⟨y, _, hy⟩ := other.cuts.longest hb
    obtain rfl := BlankKind.eq_of_begins ⟨x, hx.start, hx.accepts⟩ ⟨y, hy.start, hy.accepts⟩
    exact Option.some.inj (ha.symm.trans hb)
  rw [findSome?_perm h fun kind _ other _ => hagree kind other]
  simp only [BlankKind.trialOrder, List.findSome?_cons, List.findSome?_nil, BlankKind.after?, afterBlank?]
  cases afterSpace? text <;> cases afterLineComment? text <;> cases afterBlockComment? text <;> rfl

theorem Blanks.nil (h : afterBlank? rest = none) : Blanks [] rest := cuts_afterBlank?.misses h

theorem Blanks.cons {xs : List (List Char)} (h : Blanks xs rest)
    (hx : afterBlank? (x ++ (xs.flatten ++ rest)) = some (xs.flatten ++ rest)) :
    Blanks (x :: xs) rest := by
  obtain ⟨y, he, hy⟩ := cuts_afterBlank?.longest hx
  obtain rfl := List.append_cancel_right he
  exact ⟨hy, h⟩

theorem exists_blanks (text : List Char) :
    ∃ xs, text = xs.flatten ++ skipBlanks text ∧ Blanks xs (skipBlanks text) := by
  fun_induction skipBlanks text with
  | case1 text rest h ih =>
    obtain ⟨xs, hrest, hxs⟩ := ih
    obtain ⟨x, rfl, _⟩ := cuts_afterBlank?.longest h
    rw [hrest] at h
    exact ⟨x :: xs, by rw [List.flatten_cons, List.append_assoc, ← hrest], hxs.cons h⟩
  | case2 text h => exact ⟨[], rfl, .nil h⟩

/-- A text is cut into blanks and a rest in one way only. -/
theorem Blanks.eq {xs ys : List (List Char)} {left : List Char} (hx : Blanks xs rest)
    (hy : Blanks ys left) (he : xs.flatten ++ rest = ys.flatten ++ left) : xs = ys ∧ rest = left := by
  induction xs generalizing ys with
  | nil =>
    cases ys with
    | nil => exact ⟨rfl, he⟩
    | cons y ys =>
      rw [List.flatten_cons, List.append_assoc] at he
      exact absurd hy.1.accepts (hx y ⟨_, he.symm⟩)
  | cons x xs ih =>
    cases ys with
    | nil =>
      rw [List.flatten_cons, List.append_assoc] at he
      exact absurd hx.1.accepts (hy x ⟨_, he⟩)
    | cons y ys =>
      simp only [List.flatten_cons, List.append_assoc] at he
      obtain ⟨hxlongest, hxs⟩ := hx
      obtain ⟨hylongest, hys⟩ := hy
      rw [← he] at hylongest
      obtain rfl := hxlongest.eq hylongest
      obtain ⟨rfl, hrest⟩ := ih hxs hys (List.append_cancel_left he)
      exact ⟨rfl, hrest⟩

theorem Blanks.skipBlanks_eq {xs : List (List Char)} (h : Blanks xs rest) :
    skipBlanks (xs.flatten ++ rest) = rest := by
  obtain ⟨ys, he, hys⟩ := exists_blanks (xs.flatten ++ rest)
  exact (h.eq hys he).2.symm

theorem skipBlanks_skipBlanks (text : List Char) : skipBlanks (skipBlanks text) = skipBlanks text :=
  skipBlanks_of_none (afterBlank?_skipBlanks text)

end Source

namespace State

open Source

theorem skip_andThen_skip (s : State) : s.skip.andThen skip = s.skip := by
  cases ht : s.text with
  | none => simp [skip, ht, Outcome.andThen]
  | some text => simp [skip, ht, withText, Outcome.andThen, Outcome.after, skipBlanks_skipBlanks]

theorem skip_andThen_step (s : State) : s.skip.andThen step = s.step := by
  cases ht : s.text with
  | none => simp [skip, step, stepWith, ht, Outcome.andThen]
  | some text =>
    simp [skip, step, stepWith, ht, withText, Outcome.andThen, Outcome.after, skipBlanks_skipBlanks]

/-- Whatever the order in which the kinds of blanks are tried, they are dropped until the same rest is
left. -/
theorem rounds_iff_skip {order : List BlankKind} (h : order.Perm BlankKind.trialOrder) (s : State)
    (text rest : List Char) :
    (∃ n, Rounds (fun text => order.findSome? (·.after? text)) n text rest) ↔
      (s.withText text).skip = ⟨s.withText rest, [], none⟩ := by
  have hnext : (fun text => order.findSome? (·.after? text)) = afterBlank? :=
    funext (findSome?_after? h)
  obtain ⟨n, _, hrounds⟩ := exists_rounds_skipBlanks text
  rw [hnext]
  constructor
  · rintro ⟨m, hrest⟩
    rw [hrest.eq hrounds]
    rfl
  · intro he
    have hrest : skipBlanks text = rest := by
      simpa [skip, withText] using congrArg (·.state.text) he
    exact ⟨n, hrest ▸ hrounds⟩

/-- A text is cut in just one way into blanks, each the longest one at the front of what is left, and a rest
that starts with none. The blanks are what is skipped. No two kinds of blanks stand at the front of the same
text, so they may be tried in any order. To skip once more, or before a step, changes nothing. -/
theorem skip_removes_blanks :
    (∀ text : List Char, ∃! cut : List (List Char) × List Char,
        text = cut.1.flatten ++ cut.2 ∧ Blanks cut.1 cut.2) ∧
      (∀ (s : State) (xs : List (List Char)) (rest : List Char), Blanks xs rest →
        (s.withText (xs.flatten ++ rest)).skip = ⟨s.withText rest, [], none⟩) ∧
      (∀ (text : List Char) (kind other : BlankKind), kind.pattern.Begins text →
        other.pattern.Begins text → kind = other) ∧
      (∀ order : List BlankKind, order.Perm BlankKind.trialOrder → ∀ (s : State) (text rest : List Char),
        (∃ n, Rounds (fun text => order.findSome? (·.after? text)) n text rest) ↔
          (s.withText text).skip = ⟨s.withText rest, [], none⟩) ∧
      ∀ s : State, s.skip.andThen skip = s.skip ∧ s.skip.andThen step = s.step := by
  refine ⟨?_, ?_, fun _ _ _ => BlankKind.eq_of_begins, fun _ => rounds_iff_skip,
    fun s => ⟨skip_andThen_skip s, skip_andThen_step s⟩⟩
  · intro text
    obtain ⟨xs, he, hxs⟩ := exists_blanks text
    refine ⟨(xs, skipBlanks text), ⟨he, hxs⟩, ?_⟩
    rintro ⟨ys, left⟩ ⟨hleft, hys⟩
    obtain ⟨rfl, rfl⟩ := hys.eq hxs (hleft.symm.trans he)
    rfl
  · intro s xs rest h
    simp only [skip, withText, h.skipBlanks_eq]

/-- A tab, a block comment with a `*/` in it, and a comment with two `$` on a line without an end. -/
theorem skip_removes_blanks_mixed :
    Blanks ["\t".toList, "/*a*/b*/".toList, "#c$d$".toList] "e".toList ∧
      (fresh.withText "\t/*a*/b*/#c$d$e".toList).skip = ⟨fresh.withText "e".toList, [], none⟩ := by
  have hblanks : Blanks ["\t".toList, "/*a*/b*/".toList, "#c$d$".toList] "e".toList :=
    (((Blanks.nil rfl).cons rfl).cons rfl).cons rfl
  obtain ⟨_, hskip, _⟩ := skip_removes_blanks
  exact ⟨hblanks, hskip fresh _ _ hblanks⟩

end State

end ByteAsm
