import ByteAsm.Proofs.Spelling

/-! Regular patterns with groups, and readers that find the longest match of a pattern. A pattern is matched
as a language, where a text may be taken apart in any way, and by going from left to right, where a
repetition goes on as long as it can. A reader follows the second way. Where the characters that can lengthen
a match do not start what comes behind it, it misses no match and takes no shorter one. -/
namespace ByteAsm.Source

inductive Pattern
  | text (word : List Char)
  | one (p : Char → Bool)
  | seq (r q : Pattern)
  | alt (r q : Pattern)
  | many (r : Pattern)
  | group (r : Pattern)

namespace Pattern

def run (p : Char → Bool) : Pattern := seq (one p) (many (one p))

/-- A text in the language of a pattern, with the texts of the groups in it. -/
inductive Matches : Pattern → List Char → List (List Char) → Prop
  | text (word : List Char) : Matches (text word) word []
  | one {p : Char → Bool} {c : Char} (hc : p c = true) : Matches (one p) [c] []
  | seq {r q : Pattern} {x y : List Char} {o o' : List (List Char)} (hx : Matches r x o)
      (hy : Matches q y o') : Matches (seq r q) (x ++ y) (o ++ o')
  | left {r q : Pattern} {x : List Char} {o : List (List Char)} (hx : Matches r x o) :
      Matches (alt r q) x o
  | right {r q : Pattern} {x : List Char} {o : List (List Char)} (hx : Matches q x o) :
      Matches (alt r q) x o
  | done {r : Pattern} : Matches (many r) [] []
  | more {r : Pattern} {x y : List Char} {o o' : List (List Char)} (hx : Matches r x o)
      (hy : Matches (many r) y o') : Matches (many r) (x ++ y) (o ++ o')
  | group {r : Pattern} {x : List Char} {o : List (List Char)} (hx : Matches r x o) :
      Matches (group r) x (x :: o)

def Accepts (r : Pattern) (x : List Char) : Prop := ∃ o, r.Matches x o

def Begins (r : Pattern) (text : List Char) : Prop := ∃ x, x <+: text ∧ r.Accepts x

def Misses (r : Pattern) (text : List Char) : Prop := ∀ x, x <+: text → ¬ r.Accepts x

/-- The longest beginning of a text that is in the language. -/
structure Longest (r : Pattern) (text x : List Char) : Prop where
  start : x <+: text
  accepts : r.Accepts x
  length_le : ∀ y, y <+: text → r.Accepts y → y.length ≤ x.length

/-- A match in front of a rest that goes from left to right. The second of two alternatives is taken only
if the first is missed, and a repetition ends only where it cannot go on. -/
inductive Greedy : Pattern → List Char → List Char → List (List Char) → Prop
  | text (word rest : List Char) : Greedy (text word) word rest []
  | one {p : Char → Bool} {c : Char} (hc : p c = true) (rest : List Char) : Greedy (one p) [c] rest []
  | seq {r q : Pattern} {x y rest : List Char} {o o' : List (List Char)}
      (hx : Greedy r x (y ++ rest) o) (hy : Greedy q y rest o') :
      Greedy (seq r q) (x ++ y) rest (o ++ o')
  | left {r q : Pattern} {x rest : List Char} {o : List (List Char)} (hx : Greedy r x rest o) :
      Greedy (alt r q) x rest o
  | right {r q : Pattern} {x rest : List Char} {o : List (List Char)} (hr : r.Misses (x ++ rest))
      (hx : Greedy q x rest o) : Greedy (alt r q) x rest o
  | done {r : Pattern} {rest : List Char} (hr : r.Misses rest) : Greedy (many r) [] rest []
  | more {r : Pattern} {x y rest : List Char} {o o' : List (List Char)}
      (hx : Greedy r x (y ++ rest) o) (hy : Greedy (many r) y rest o') :
      Greedy (many r) (x ++ y) rest (o ++ o')
  | group {r : Pattern} {x rest : List Char} {o : List (List Char)} (hx : Greedy r x rest o) :
      Greedy (group r) x rest (x :: o)

def nullable : Pattern → Bool
  | text word => word.isEmpty
  | one _ => false
  | seq r q => r.nullable && q.nullable
  | alt r q => r.nullable || q.nullable
  | many _ => true
  | group r => r.nullable

def starts (c : Char) : Pattern → Bool
  | text word => word.head? == some c
  | one p => p c
  | seq r q => r.starts c || (r.nullable && q.starts c)
  | alt r q => r.starts c || q.starts c
  | many r => r.starts c
  | group r => r.starts c

def Within (kind : Char → Bool) : Pattern → Prop
  | text word => word.all kind = true
  | one p => ∀ c, p c = true → kind c = true
  | seq r q => r.Within kind ∧ q.Within kind
  | alt r q => r.Within kind ∧ q.Within kind
  | many r => r.Within kind
  | group r => r.Within kind

/-- The characters with which a match can go on to a longer one. -/
def Lengthens (r : Pattern) (c : Char) : Prop := ∃ x y, r.Accepts x ∧ r.Accepts (x ++ c :: y)

/-- Where a match of the first pattern can be lengthened, no match of the second one starts. -/
def Apart (r q : Pattern) : Prop := ∀ c, r.Lengthens c → ¬ q.starts c = true

/-- A match in front of a rest to which every other one falls short. -/
structure Finds (r : Pattern) (x rest : List Char) (o : List (List Char)) : Prop where
  greedy : r.Greedy x rest o
  best : ∀ y o', y <+: x ++ rest → r.Matches y o' → y.length < x.length ∨ y = x ∧ o' = o

/-- A reader finds the matches of a pattern. `captured` gives the texts of its groups. -/
structure Reads {α : Type} (r : Pattern) (read : List Char → Option (α × List Char))
    (captured : α → List (List Char)) : Prop where
  finds : ∀ {text rest a}, read text = some (a, rest) →
    ∃ x, text = x ++ rest ∧ r.Finds x rest (captured a)
  misses : ∀ {text}, read text = none → r.Misses text

variable {r q : Pattern} {p : Char → Bool} {c : Char} {x y rest text word : List Char}
  {o o' : List (List Char)}

theorem begins_iff_not_misses : r.Begins text ↔ ¬ r.Misses text := by
  simp [Begins, Misses]

theorem Greedy.matches (h : r.Greedy x rest o) : r.Matches x o := by
  induction h with
  | text word rest => exact .text word
  | one hc rest => exact .one hc
  | seq _ _ ihx ihy => exact .seq ihx ihy
  | left _ ih => exact .left ih
  | right _ _ ih => exact .right ih
  | done _ => exact .done
  | more _ _ ihx ihy => exact .more ihx ihy
  | group _ ih => exact .group ih

theorem nullable_of_matches (h : r.Matches [] o) : r.nullable = true := by
  generalize hx : ([] : List Char) = x at h
  induction h with
  | text word => simp [nullable, ← hx]
  | one hc => cases hx
  | seq _ _ ihx ihy =>
    obtain ⟨rfl, rfl⟩ := List.append_eq_nil_iff.1 hx.symm
    simp [nullable, ihx rfl, ihy rfl]
  | left _ ih => simp [nullable, ih hx]
  | right _ ih => simp [nullable, ih hx]
  | done => rfl
  | more _ _ _ _ => rfl
  | group _ ih => exact ih hx

theorem starts_of_matches (h : r.Matches (c :: x) o) : r.starts c = true := by
  generalize htext : c :: x = text at h
  induction h generalizing x with
  | text word => simp [starts, ← htext]
  | one hc =>
    cases htext
    exact hc
  | @seq r q front _ _ _ hx _ ihx ihy =>
    cases front with
    | nil => simp [starts, nullable_of_matches hx, ihy htext]
    | cons d front =>
      obtain ⟨rfl, _⟩ := List.cons.inj htext
      simp [starts, ihx rfl]
  | left _ ih => simp [starts, ih htext]
  | right _ ih => simp [starts, ih htext]
  | done => cases htext
  | @more r front _ _ _ _ _ ihx ihy =>
    cases front with
    | nil => exact ihy htext
    | cons d front =>
      obtain ⟨rfl, _⟩ := List.cons.inj htext
      exact ihx rfl
  | group _ ih => exact ih htext

theorem matches_seq_iff : (seq r q).Matches text o ↔
    ∃ x y a b, text = x ++ y ∧ o = a ++ b ∧ r.Matches x a ∧ q.Matches y b := by
  constructor
  · intro h
    cases h with
    | seq hx hy => exact ⟨_, _, _, _, rfl, rfl, hx, hy⟩
  · rintro ⟨x, y, a, b, rfl, rfl, hx, hy⟩
    exact .seq hx hy

theorem matches_text_iff : (Pattern.text word).Matches x o ↔ x = word ∧ o = [] := by
  constructor
  · intro h
    cases h
    exact ⟨rfl, rfl⟩
  · rintro ⟨rfl, rfl⟩
    exact .text x

theorem matches_many_one_iff : (many (one p)).Matches x o ↔ (∀ c ∈ x, p c = true) ∧ o = [] := by
  constructor
  · intro h
    generalize hr : many (one p) = r at h
    induction h with
    | done => simp
    | more hx _ _ ih =>
      cases hr
      cases hx with
      | one hc =>
        obtain ⟨hall, rfl⟩ := ih rfl
        simpa [hc] using hall
    | _ => cases hr
  · rintro ⟨hx, rfl⟩
    induction x with
    | nil => exact .done
    | cons c x ih =>
      exact .more (.one (hx c List.mem_cons_self)) (ih fun d hd => hx d (List.mem_cons_of_mem c hd))

theorem matches_run_iff :
    (run p).Matches x o ↔ x ≠ [] ∧ (∀ c ∈ x, p c = true) ∧ o = [] := by
  constructor
  · intro h
    cases h with
    | seq hx hy =>
      cases hx with
      | one hc =>
        obtain ⟨hall, rfl⟩ := matches_many_one_iff.1 hy
        simpa [hc] using hall
  · rintro ⟨hne, hx, rfl⟩
    obtain ⟨c, x, rfl⟩ := List.exists_cons_of_ne_nil hne
    exact .seq (.one (hx c List.mem_cons_self))
      (matches_many_one_iff.2 ⟨fun d hd => hx d (List.mem_cons_of_mem c hd), rfl⟩)

/-! What can lengthen a match. -/

theorem not_lengthens_text : ¬ (Pattern.text word).Lengthens c := by
  rintro ⟨x, y, ⟨o, hx⟩, o', hxy⟩
  obtain ⟨rfl, _⟩ := matches_text_iff.1 hx
  have := (matches_text_iff.1 hxy).1
  simp at this

theorem not_lengthens_one : ¬ (one p).Lengthens c := by
  rintro ⟨x, y, ⟨o, hx⟩, o', hxy⟩
  cases hx
  cases hxy

theorem Within.of_matches {kind : Char → Bool} (h : r.Within kind) (hx : r.Matches x o) :
    ∀ c ∈ x, kind c = true := by
  induction hx with
  | text word => exact List.all_eq_true.1 h
  | one hc => simpa using h _ hc
  | seq _ _ ihx ihy =>
    intro c hc
    exact (List.mem_append.1 hc).elim (ihx h.1 c) (ihy h.2 c)
  | left _ ih => exact ih h.1
  | right _ ih => exact ih h.2
  | done => simp
  | more _ _ ihx ihy =>
    intro c hc
    exact (List.mem_append.1 hc).elim (ihx h c) (ihy h c)
  | group _ ih => exact ih h

theorem Within.of_starts {kind : Char → Bool} (h : r.Within kind) (hc : r.starts c = true) :
    kind c = true := by
  induction r with
  | text word => exact List.all_eq_true.1 h c (List.mem_of_mem_head? (by simpa [starts] using hc))
  | one p => exact h c hc
  | seq r q ihr ihq =>
    simp only [starts, Bool.or_eq_true, Bool.and_eq_true] at hc
    exact hc.elim (ihr h.1) fun hq => ihq h.2 hq.2
  | alt r q ihr ihq => exact (Bool.or_eq_true_iff.1 hc).elim (ihr h.1) (ihq h.2)
  | many r ih => exact ih h hc
  | group r ih => exact ih h hc

theorem apart_of_not_lengthens (h : ∀ c, ¬ r.Lengthens c) : Apart r q :=
  fun c hc => absurd hc (h c)

theorem apart_of_within {kind : Char → Bool} (hr : r.Within kind)
    (hq : ∀ c, q.starts c = true → kind c = false) : Apart r q := by
  rintro c ⟨x, y, _, o, hxy⟩ hstarts
  have hc := hr.of_matches hxy c (by simp)
  rw [hq c hstarts] at hc
  cases hc

theorem Apart.not_matches (h : Apart r q) (hx : r.Matches x o) (hy : r.Matches (x ++ c :: y) o')
    (z : List Char) (a : List (List Char)) : ¬ q.Matches (c :: z) a := by
  intro hz
  exact h c ⟨x, y, ⟨o, hx⟩, o', hy⟩ (starts_of_matches hz)

/-! Finding the longest match. -/

theorem Misses.seq (h : r.Misses text) : (seq r q).Misses text := by
  rintro z hz ⟨_, hmatch⟩
  obtain ⟨x, y, a, _, rfl, _, hx, _⟩ := matches_seq_iff.1 hmatch
  exact h x ((List.prefix_append x y).trans hz) ⟨a, hx⟩

/-- How a match of two patterns lies to one of the first that cannot be lengthened: it is cut in the same
place, or it ends before. -/
theorem Finds.cut (hx : r.Finds x rest o) (hapart : Apart r q) {z : List Char}
    (hz : z <+: x ++ rest) (h : (Pattern.seq r q).Matches z o') :
    (∃ y a, z = x ++ y ∧ o' = o ++ a ∧ y <+: rest ∧ q.Matches y a) ∨
      z.length < x.length ∧ q.Accepts [] := by
  obtain ⟨front, y, a, b, rfl, rfl, hfront, hy⟩ := matches_seq_iff.1 h
  have hstart := (List.prefix_append front y).trans hz
  rcases hx.best front a hstart hfront with hlt | ⟨rfl, rfl⟩
  · have hshort : front <+: x :=
      List.prefix_of_prefix_length_le hstart (List.prefix_append x rest) (Nat.le_of_lt hlt)
    obtain ⟨more, rfl⟩ := hshort
    cases more with
    | nil => simp at hlt
    | cons d more =>
      rw [List.append_assoc, List.prefix_append_right_inj] at hz
      rcases List.prefix_cons_iff.1 hz with rfl | ⟨tail, rfl, _⟩
      · exact .inr ⟨by simp, b, hy⟩
      · exact absurd hy (hapart.not_matches hfront hx.greedy.matches _ _)
  · left
    exact ⟨y, b, rfl, rfl, (List.prefix_append_right_inj front).1 hz, hy⟩

theorem Finds.seq (hx : r.Finds x (y ++ rest) o) (hy : q.Finds y rest o') (hapart : Apart r q) :
    (Pattern.seq r q).Finds (x ++ y) rest (o ++ o') := by
  refine ⟨.seq hx.greedy hy.greedy, ?_⟩
  intro z a hz hmatch
  rw [List.append_assoc] at hz
  rcases hx.cut hapart hz hmatch with ⟨w, b, rfl, rfl, hw, hmatch⟩ | ⟨hlt, _⟩
  · rcases hy.best w b hw hmatch with hlt | ⟨rfl, rfl⟩
    · exact .inl (by simpa using hlt)
    · exact .inr ⟨rfl, rfl⟩
  · exact .inl (by rw [List.length_append]; omega)

theorem Finds.misses_seq (hx : r.Finds x rest o) (hq : q.Misses rest) (hapart : Apart r q) :
    (Pattern.seq r q).Misses (x ++ rest) := by
  rintro z hz ⟨_, hmatch⟩
  rcases hx.cut hapart hz hmatch with ⟨y, a, _, _, hy, hmatch⟩ | ⟨_, hmatch⟩
  · exact hq y hy ⟨a, hmatch⟩
  · exact hq [] List.nil_prefix hmatch

theorem Finds.longest (h : r.Finds x rest o) : r.Longest (x ++ rest) x where
  start := List.prefix_append x rest
  accepts := ⟨o, h.greedy.matches⟩
  length_le := by
    rintro y hy ⟨o', hmatch⟩
    rcases h.best y o' hy hmatch with hlt | ⟨rfl, _⟩
    · exact Nat.le_of_lt hlt
    · exact Nat.le_refl _

/-- There is one longest match, and one way to take it apart. -/
theorem Finds.eq_of_longest (h : r.Finds x rest o) (hy : r.Longest (x ++ rest) y)
    (hmatch : r.Matches y o') : y = x ∧ o' = o := by
  rcases h.best y o' hy.start hmatch with hlt | heq
  · have := hy.length_le x (List.prefix_append x rest) ⟨o, h.greedy.matches⟩
    omega
  · exact heq

theorem Finds.group (h : r.Finds x rest o) : (group r).Finds x rest (x :: o) := by
  refine ⟨.group h.greedy, ?_⟩
  intro y a hy hmatch
  cases hmatch with
  | group hmatch =>
    rcases h.best y _ hy hmatch with hlt | ⟨rfl, rfl⟩
    · exact .inl hlt
    · exact .inr ⟨rfl, rfl⟩

theorem finds_text (word rest : List Char) : (Pattern.text word).Finds word rest [] := by
  refine ⟨.text word rest, ?_⟩
  intro y a _ hmatch
  exact .inr (matches_text_iff.1 hmatch)

theorem finds_one (hc : p c = true) (rest : List Char) : (one p).Finds [c] rest [] := by
  refine ⟨.one hc rest, ?_⟩
  intro y a hy hmatch
  cases hmatch
  exact .inr ⟨by simpa using hy, rfl⟩

theorem misses_of_head (hr : r.nullable = false) (h : ∀ c ∈ text.head?, r.starts c = false) :
    r.Misses text := by
  rintro y ⟨tail, rfl⟩ ⟨_, hmatch⟩
  cases y with
  | nil =>
    have hnil := nullable_of_matches hmatch
    rw [hr] at hnil
    cases hnil
  | cons c y =>
    have hc := starts_of_matches hmatch
    rw [h c rfl] at hc
    cases hc

theorem greedy_many_one (hx : ∀ c ∈ x, p c = true) (hrest : ∀ c ∈ rest.head?, p c = false) :
    (many (one p)).Greedy x rest [] := by
  induction x with
  | nil => exact .done (misses_of_head rfl hrest)
  | cons c x ih =>
    exact .more (.one (hx c List.mem_cons_self) (x ++ rest))
      (ih fun d hd => hx d (List.mem_cons_of_mem c hd))

theorem length_lt_of_run (hrest : ∀ c ∈ rest.head?, p c = false)
    (hy : y <+: x ++ rest) (hall : ∀ c ∈ y, p c = true) : y.length < x.length ∨ y = x := by
  rcases List.prefix_or_prefix_of_prefix hy (List.prefix_append x rest) with hshort | ⟨more, rfl⟩
  · rcases Nat.lt_or_eq_of_le hshort.length_le with hlt | heq
    · exact .inl hlt
    · exact .inr (hshort.eq_of_length heq)
  · cases more with
    | nil => exact .inr (List.append_nil x)
    | cons c more =>
      obtain ⟨tail, rfl⟩ := (List.prefix_append_right_inj x).1 hy
      have hc := hall c (by simp)
      rw [hrest c rfl] at hc
      cases hc

theorem finds_many_one (hx : ∀ c ∈ x, p c = true) (hrest : ∀ c ∈ rest.head?, p c = false) :
    (many (one p)).Finds x rest [] := by
  refine ⟨greedy_many_one hx hrest, ?_⟩
  intro y a hy hmatch
  obtain ⟨hall, rfl⟩ := matches_many_one_iff.1 hmatch
  rcases length_lt_of_run hrest hy hall with hlt | rfl
  · exact .inl hlt
  · exact .inr ⟨rfl, rfl⟩

theorem finds_run (hne : x ≠ []) (hx : ∀ c ∈ x, p c = true) (hrest : ∀ c ∈ rest.head?, p c = false) :
    (run p).Finds x rest [] := by
  obtain ⟨c, x, rfl⟩ := List.exists_cons_of_ne_nil hne
  have hmore := finds_many_one (fun d hd => hx d (List.mem_cons_of_mem c hd)) hrest
  exact (finds_one (hx c List.mem_cons_self) (x ++ rest)).seq hmore
    (apart_of_not_lengthens fun _ => not_lengthens_one)

section Reads

variable {α β γ : Type} {f : List Char → Option (α × List Char)}
  {g : List Char → Option (β × List Char)} {a : α → List (List Char)} {b : β → List (List Char)}

theorem Reads.seq (hf : r.Reads f a) (hg : q.Reads g b) (hapart : Apart r q)
    {read : List Char → Option (γ × List Char)} {captured : γ → List (List Char)} {k : α → β → γ}
    (hread : ∀ text, read text = (f text).bind fun m => (g m.2).map fun n => (k m.1 n.1, n.2))
    (hcaptured : ∀ m n, captured (k m n) = a m ++ b n) : (seq r q).Reads read captured := by
  constructor
  · intro text rest m h
    rw [hread] at h
    obtain ⟨⟨u, mid⟩, hu, h⟩ := Option.bind_eq_some_iff.1 h
    obtain ⟨⟨v, _⟩, hv, he⟩ := Option.map_eq_some_iff.1 h
    cases he
    obtain ⟨x, rfl, hx⟩ := hf.finds hu
    obtain ⟨y, rfl, hy⟩ := hg.finds hv
    refine ⟨x ++ y, by simp, ?_⟩
    rw [hcaptured]
    exact hx.seq hy hapart
  · intro text h
    rw [hread] at h
    cases hu : f text with
    | none => exact (hf.misses hu).seq
    | some m =>
      obtain ⟨x, rfl, hx⟩ := hf.finds hu
      simp only [hu, Option.bind_some, Option.map_eq_none_iff] at h
      exact hx.misses_seq (hg.misses h) hapart

theorem Reads.congr (hf : r.Reads f a) {read : List Char → Option (γ × List Char)}
    {captured : γ → List (List Char)} {k : α → γ}
    (hread : ∀ text, read text = (f text).map fun m => (k m.1, m.2))
    (hcaptured : ∀ m, captured (k m) = a m) : r.Reads read captured := by
  constructor
  · intro text rest m h
    rw [hread] at h
    obtain ⟨⟨u, _⟩, hu, he⟩ := Option.map_eq_some_iff.1 h
    cases he
    rw [hcaptured]
    exact hf.finds hu
  · intro text h
    rw [hread] at h
    exact hf.misses (Option.map_eq_none_iff.1 h)

/-- Read the second if the first is not there. A match of the second must be shorter than one of the
first. -/
theorem Reads.alt (hf : r.Reads f a) (hg : q.Reads g b)
    (hshort : ∀ x rest o y o', r.Finds x rest o → y <+: x ++ rest → q.Matches y o' →
      y.length < x.length)
    {read : List Char → Option (γ × List Char)} {captured : γ → List (List Char)}
    {k : α → γ} {l : β → γ}
    (hread : ∀ text, read text =
      ((f text).map fun m => (k m.1, m.2)).or ((g text).map fun n => (l n.1, n.2)))
    (hk : ∀ m, captured (k m) = a m) (hl : ∀ n, captured (l n) = b n) :
    (alt r q).Reads read captured := by
  constructor
  · intro text rest m h
    rw [hread] at h
    rcases Option.or_eq_some_iff.1 h with h | ⟨hnone, h⟩
    · obtain ⟨⟨u, _⟩, hu, he⟩ := Option.map_eq_some_iff.1 h
      cases he
      obtain ⟨x, rfl, hx⟩ := hf.finds hu
      refine ⟨x, rfl, ?_⟩
      rw [hk]
      refine ⟨.left hx.greedy, ?_⟩
      intro y o' hy hmatch
      cases hmatch with
      | left hmatch => exact hx.best y o' hy hmatch
      | right hmatch => exact .inl (hshort x _ _ y o' hx hy hmatch)
    · obtain ⟨⟨v, _⟩, hv, he⟩ := Option.map_eq_some_iff.1 h
      cases he
      have hmiss := hf.misses (Option.map_eq_none_iff.1 hnone)
      obtain ⟨x, rfl, hx⟩ := hg.finds hv
      refine ⟨x, rfl, ?_⟩
      rw [hl]
      refine ⟨.right hmiss hx.greedy, ?_⟩
      intro y o' hy hmatch
      cases hmatch with
      | left hmatch => exact absurd ⟨o', hmatch⟩ (hmiss y hy)
      | right hmatch => exact hx.best y o' hy hmatch
  · intro text h
    rw [hread, Option.or_eq_none_iff, Option.map_eq_none_iff, Option.map_eq_none_iff] at h
    rintro y hy ⟨o', hmatch⟩
    cases hmatch with
    | left hmatch => exact hf.misses h.1 y hy ⟨o', hmatch⟩
    | right hmatch => exact hg.misses h.2 y hy ⟨o', hmatch⟩

theorem Reads.group (hf : r.Reads f fun _ => []) {w : α → List Char}
    (hw : ∀ {text m rest}, f text = some (m, rest) → text = w m ++ rest) :
    (group r).Reads f fun m => [w m] := by
  constructor
  · intro text rest m h
    obtain ⟨x, rfl, hx⟩ := hf.finds h
    obtain rfl := List.append_cancel_right (hw h)
    exact ⟨_, rfl, hx.group⟩
  · rintro text h y hy ⟨_, hmatch⟩
    cases hmatch with
    | group hmatch => exact hf.misses h y hy ⟨_, hmatch⟩

theorem reads_text (word : List Char) :
    (Pattern.text word).Reads (fun text => (after? word text).map fun rest => ((), rest))
      fun _ => [] := by
  constructor
  · intro text rest m h
    obtain ⟨_, ha, he⟩ := Option.map_eq_some_iff.1 h
    cases he
    exact ⟨word, after?_eq_some_iff.1 ha, finds_text word rest⟩
  · rintro text h y ⟨tail, rfl⟩ ⟨_, hmatch⟩
    obtain ⟨rfl, _⟩ := matches_text_iff.1 hmatch
    rw [after?_append] at h
    cases h

theorem Reads.skip {behind : List Char → Option (List Char)}
    (hr : r.Reads (fun text => (behind text).map fun rest => ((), rest)) fun _ => [])
    (hg : q.Reads g b) (hapart : Apart r q) :
    (Pattern.seq r q).Reads (fun text => (behind text).bind g) b := by
  refine hr.seq hg hapart (k := fun _ n => n) ?_ fun _ _ => rfl
  intro text
  cases behind text <;> simp

theorem Reads.after (hg : q.Reads g b) (word : List Char) :
    (Pattern.seq (Pattern.text word) q).Reads (fun text => (after? word text).bind g) b :=
  (reads_text word).skip hg (apart_of_not_lengthens fun _ => not_lengthens_text)

theorem Reads.before (hf : r.Reads f a) {word : List Char} (hapart : Apart r (Pattern.text word)) :
    (Pattern.seq r (Pattern.text word)).Reads
      (fun text => (f text).bind fun m => (after? word m.2).map fun rest => (m.1, rest)) a := by
  refine hf.seq (reads_text word) hapart (k := fun m _ => m) ?_ fun _ _ => (List.append_nil _).symm
  intro text
  simp [Option.map_map, Function.comp_def]

theorem reads_one (p : Char → Bool) :
    (one p).Reads (fun text => (text.head?.filter p).map fun c => (c, text.tail)) fun _ => [] := by
  constructor
  · intro text rest m h
    obtain ⟨c, hc, he⟩ := Option.map_eq_some_iff.1 h
    cases he
    obtain ⟨hhead, hp⟩ := Option.filter_eq_some_iff.1 hc
    obtain ⟨tail, rfl⟩ := List.head?_eq_some_iff.1 hhead
    exact ⟨[m], rfl, finds_one hp tail⟩
  · intro text h
    apply misses_of_head rfl
    intro c hc
    have hnone := Option.map_eq_none_iff.1 h
    simpa [starts, Option.mem_def.1 hc, Option.filter_eq_none_iff] using hnone

theorem head?_dropWhile (p : Char → Bool) (text : List Char) :
    ∀ c ∈ (text.dropWhile p).head?, p c = false := by
  intro c hc
  have h := List.head?_dropWhile_not p text
  rw [Option.mem_def.1 hc] at h
  exact h

theorem reads_run (p : Char → Bool) : (run p).Reads (readRun? p) fun _ => [] := by
  constructor
  · intro text rest m h
    obtain ⟨hne, rfl, rfl⟩ := readRun?_eq_some_iff.1 h
    refine ⟨text.takeWhile p, List.takeWhile_append_dropWhile.symm, ?_⟩
    exact finds_run hne (List.all_eq_true.1 List.all_takeWhile) (head?_dropWhile p text)
  · rintro text h y ⟨tail, rfl⟩ ⟨_, hmatch⟩
    obtain ⟨hne, hall, _⟩ := matches_run_iff.1 hmatch
    simp only [readRun?, List.takeWhile_append_of_pos hall] at h
    split at h
    · rename_i hnil
      exact hne (List.append_eq_nil_iff.1 hnil).1
    · cases h

theorem reads_many_one (p : Char → Bool) :
    (many (one p)).Reads (fun text => some (text.takeWhile p, text.dropWhile p)) fun _ => [] := by
  constructor
  · intro text rest m h
    cases h
    refine ⟨text.takeWhile p, List.takeWhile_append_dropWhile.symm, ?_⟩
    exact finds_many_one (List.all_eq_true.1 List.all_takeWhile) (head?_dropWhile p text)
  · intro text h
    cases h

end Reads

end Pattern

end ByteAsm.Source
