import ByteAsm.Proofs.Resolution
import ByteAsm.Proofs.Written

/-! Nothing checks that code and data keep apart. Every byte that a program places is still there
in the end if its address is not used for something else, and where code has run into the data, a
program can succeed with bytes that no statement has asked for. -/
namespace ByteAsm

open Source

/-- The bytes that an action places in a state, each with its address. -/
def Action.placed (target : String → UInt16) (t : State) : Action → List (UInt8 × Nat)
  | emit _ i => (i.map target).encode.zipIdx t.code
  | store _ bytes => bytes.zipIdx t.data
  | pad => [(0, t.image.size)]
  | _ => []

/-- An address that an action shares with nothing else in a finished image: code is not among the
data, data not among the code, and the byte of a no-operation in neither of them. -/
def Action.Alone (s : State) (addr : Nat) : Action → Prop
  | emit .. => addr < 0x8000 ∨ s.data ≤ addr
  | store .. => s.code ≤ addr
  | _ => s.code ≤ addr ∧ s.data ≤ addr

namespace State

def target (s : State) (name : String) : UInt16 := UInt16.ofNat (s.labels[name]?.getD 0)

theorem Records.target {s : State} {as : List Action} (h : s.Records as) :
    s.target = Layout.target as := by
  funext name
  rw [State.target, Layout.target, h.labels]

theorem split_actions {before after : List Statement} {statement : Statement} {as : List Action}
    (h : HasActions (before ++ statement :: after) as) :
    ∃ bs a cs, as = bs ++ a :: cs ∧ HasActions before bs ∧ statement.action = .ok a := by
  obtain ⟨bs, rest, rfl, hbs, hrest⟩ := HasActions.split h
  cases hrest with
  | @cons _ a _ cs ha _ => exact ⟨bs, a, cs, rfl, hbs, ha⟩

theorem getElem?_append_middle {xs ys zs : List UInt8} {i : Nat} {b : UInt8}
    (hge : xs.length ≤ i) (hb : ys[i - xs.length]? = some b) : (xs ++ (ys ++ zs))[i]? = some b := by
  have hlt := (List.getElem?_eq_some_iff.1 hb).1
  rw [List.getElem?_append_right hge, List.getElem?_append_left hlt, hb]

/-- What is shown of an action in the middle of a program. -/
theorem Shows.intact {s t : State} {bs cs : List Action} {a : Action} {target : String → UInt16}
    (hs : s.Shows (Layout.code target (bs ++ a :: cs)) (Layout.data (bs ++ a :: cs)))
    (hsize : s.image.size = 0x10000 + Layout.pads (bs ++ a :: cs)) (ht : t.Records bs) :
    ∀ p ∈ a.placed target t, a.Alone s p.2 → s.image[p.2]? = some p.1 := by
  have hc := hs.code_eq
  have hd := hs.data_eq
  rw [Layout.code_append, Layout.code_cons] at hs hc
  rw [Layout.data_append, Layout.data_cons] at hs hd
  rintro ⟨b, addr⟩ hp halone
  cases a with
  | emit p i =>
    obtain ⟨hge, hb⟩ := List.mk_mem_zipIdx_iff_le_and_getElem?_sub.1 hp
    rw [ht.code, ← Layout.length_code target] at hge hb
    have hbyte := @getElem?_append_middle _ _ (Layout.code target cs) _ _ hge hb
    have hlt := (List.getElem?_eq_some_iff.1 hbyte).1
    exact (hs.code_byte addr (hc ▸ hlt) halone).trans hbyte
  | store p bytes =>
    obtain ⟨hge, hb⟩ := List.mk_mem_zipIdx_iff_le_and_getElem?_sub.1 hp
    rw [ht.data] at hge hb
    rw [← Nat.sub_sub] at hb
    have hbyte := @getElem?_append_middle _ _ (Layout.data cs) _ _ (by omega) hb
    have hlt := (List.getElem?_eq_some_iff.1 hbyte).1
    refine (hs.data_byte addr ?_ (by omega) halone).trans hbyte
    rw [hd]
    simp only [Action.data] at hlt ⊢
    omega
  | pad =>
    cases List.mem_singleton.1 hp
    have hlt : t.image.size < s.image.size := by
      rw [ht.size, hsize]
      simp [Layout.pads, Action.isPad]
    exact hs.zero _ hlt halone.1 (.inr halone.2)
  | _ => simp [Action.placed] at hp

theorem written_halts (n : Nat) :
    Written (List.replicate n (.instruction .hlt ())) (List.replicate n "HLT\n".toList).flatten := by
  induction n with
  | zero => exact .nil
  | succ n ih =>
    have hhalt : Item.Spelled (.instruction .hlt ()) ['H', 'L', 'T'] := ⟨⟨[], rfl, rfl⟩, by decide, trivial⟩
    have hline : Separator ['\n'] := .blank (.space (by decide))
    exact .cons hhalt hline ih

def haltsText (n : Nat) : List Char :=
  ".ascii \"\x01\"\n".toList ++ (List.replicate n "HLT\n".toList).flatten

theorem statements_haltsText (n : Nat) : statements (haltsText n) =
    .data ['\x01'] :: List.replicate n (.instruction .hlt ()) := by
  have hascii : Item.Spelled (.ascii ['\x01'])
      ['.', 'a', 's', 'c', 'i', 'i', ' ', '"', '\x01', '"'] :=
    ⟨⟨body_escape ['\x01'], [' '], ⟨by simp, List.all_eq_true.1 (by decide)⟩, rfl⟩,
      by simp [Item.Valid]⟩
  have hline : Separator ['\n'] := .blank (.space (by decide))
  have h : Written (.ascii ['\x01'] :: List.replicate n (.instruction .hlt ())) (haltsText n) :=
    .cons hascii hline (written_halts n)
  rw [h.statements, List.map_cons, List.map_replicate]
  rfl

theorem action_data_one : (Statement.data ['\x01']).action = .ok (.store .add [1]) := by
  have hbytes : bodyBytes ['\x01'] = .ok [1] := @bodyBytes_escape ['\x01'] (by simp)
  rw [Statement.action_data, hbytes]

theorem actions_replicate {statement : Statement} {a : Action} (h : statement.action = .ok a)
    (n : Nat) : HasActions (List.replicate n statement) (List.replicate n a) := by
  induction n with
  | zero => exact .nil
  | succ n ih => exact .cons h ih

theorem draft_halts (n : Nat) :
    Layout.draft (List.replicate n (.emit .add .hlt)) = List.replicate n 1 := by
  induction n with
  | zero => rfl
  | succ n ih =>
    rw [List.replicate_succ, Layout.draft_cons, ih]
    rfl

theorem data_halts (n : Nat) : Layout.data (List.replicate n (.emit .add .hlt)) = [] := by
  induction n with
  | zero => rfl
  | succ n ih =>
    rw [List.replicate_succ, Layout.data_cons, ih]
    rfl

theorem references_halts (addr n : Nat) :
    (Layout.located addr (List.replicate n (.emit .add .hlt))).filterMap Layout.reference? = [] := by
  induction n generalizing addr with
  | zero => rfl
  | succ n ih => exact ih _

/-- A halt that is placed on the first data byte is added to it. -/
theorem Shows.collide {s : State} {code data : List UInt8} {b : UInt8}
    (h : s.Shows code (b :: data)) (hcode : s.code = 0x8000) (hb : b.toNat < 0xFF) :
    (s.perform (.emit .add .hlt)).fault = none ∧
      (s.perform (.emit .add .hlt)).state.image[0x8000]? = some (b + 1) := by
  have hd := h.data_eq
  have hle := h.data_le
  rw [List.length_cons] at hd
  have hlt : s.code < s.image.size := by omega
  have hold : s.image[s.code] = b := by
    have hbyte := h.data_byte s.code (by omega) (by omega) (Nat.le_refl _)
    rw [Array.getElem?_eq_getElem hlt, show s.code - 0x8000 = 0 by omega] at hbyte
    simpa using hbyte
  have hsum : Placement.combine? .add s.image[s.code] 1 = some (b + 1) := by
    have : b.toNat + (1 : UInt8).toNat < 0x100 := by
      have : (1 : UInt8).toNat = 1 := rfl
      omega
    simp only [hold, Placement.combine?, if_pos this]
  have hplace : s.image.place .add s.code [1] = ⟨s.image.set s.code (b + 1), s.code + 1, none⟩ := by
    rw [Image.place_cons_some hlt hsum, Image.place_nil]
  rw [perform_emit, show Instruction.hlt.draft = [1] from rfl, hplace]
  refine ⟨rfl, ?_⟩
  simp [← hcode]

theorem assemble_collision :
    ((fresh.withText (haltsText 0x8001)).program.andThen State.resolve).fault = none ∧
      ((fresh.withText (haltsText 0x8001)).program.andThen State.resolve).state.image[0x8000]? =
        some 2 := by
  -- the number of halts stays a variable, so that no list of this length is ever written out
  obtain ⟨n, hn⟩ : ∃ n, n = 0x8000 := ⟨_, rfl⟩
  rw [show 0x8001 = n + 1 by omega]
  obtain ⟨front, hdef⟩ : ∃ front : List Action,
      front = .store .add [1] :: List.replicate n (.emit .add .hlt) := ⟨_, rfl⟩
  have hactions : HasActions ([haltsText (n + 1)].flatMap statements) (front ++ [.emit .add .hlt]) := by
    have hhalts := @actions_replicate (.instruction .hlt ()) _ rfl (n + 1)
    rw [List.flatMap_singleton, statements_haltsText, hdef, List.cons_append, ← List.replicate_succ']
    exact .cons action_data_one hhalts
  have hlen : (Layout.draft front).length = n := by simp [hdef, draft_halts, Action.draft]
  have hdata : Layout.data front = [1] := by simp [hdef, data_halts, Action.data]
  have hfront : (Outcome.forEach perform fresh front).fault = none := by
    apply shows_fresh.fault_forEach
    · simp [fresh]
    · rw [List.nil_append, hlen]
      omega
    · rw [hdata]
      decide
  have hshow := shows_fresh.forEach hfront
  rw [hdata] at hshow
  have hcode : (Outcome.forEach perform fresh front).state.code = 0x8000 := by
    rw [hshow.code_eq, List.nil_append, hlen, hn]
  obtain ⟨hlast, hbyte⟩ := hshow.collide hcode (by decide)
  have hall : (Outcome.forEach perform fresh (front ++ [.emit .add .hlt])).fault = none ∧
      (Outcome.forEach perform fresh (front ++ [.emit .add .hlt])).state.image[0x8000]? = some 2 := by
    rw [Outcome.forEach_append, Outcome.fault_andThen_eq_none_iff, Outcome.state_andThen _ hfront,
      Outcome.forEach_singleton]
    exact ⟨⟨hfront, hlast⟩, hbyte⟩
  obtain ⟨hp, hb, _⟩ := records_programs hactions hall.1
  obtain ⟨left, he⟩ := programs_eq fresh [haltsText (n + 1)]
  rw [forEach_execute_of_actions hactions] at he
  have hrefs : Layout.references (front ++ [.emit .add .hlt]) = [] := by
    rw [hdef, List.cons_append, ← List.replicate_succ']
    exact references_halts _ _
  rw [← programs_singleton, Outcome.fault_andThen_eq_none_iff, Outcome.state_andThen _ hp,
    State.resolve, hb.references, hrefs, Outcome.forEach_nil, he]
  exact ⟨⟨hall.1, rfl⟩, hall.2⟩

/-- When a program has succeeded, every byte that one of its statements has placed is still there,
unless code and data share the address. A branch has the address of its label. -/
theorem placed_intact {text : List Char} {before after : List Statement} {statement : Statement}
    (hf : ((fresh.withText text).program.andThen State.resolve).fault = none)
    (hsplit : statements text = before ++ statement :: after) :
    let s := ((fresh.withText text).program.andThen State.resolve).state
    let t := (Outcome.forEach execute fresh before).state
    ∃ a, statement.action = .ok a ∧
      (∀ r, Layout.reference? (t.code, a) = some r → ∃ addr, s.labels[r.label]? = some addr) ∧
      ∀ p ∈ a.placed s.target t, a.Alone s p.2 → s.image[p.2]? = some p.1 := by
  rw [← programs_singleton] at hf ⊢
  intro s t
  obtain ⟨as, h⟩ := exists_assembled hf
  have hactions := h.actions
  rw [List.flatMap_singleton, hsplit] at hactions
  obtain ⟨bs, a, cs, rfl, hbs, ha⟩ := split_actions hactions
  have hbefore : (Outcome.forEach perform fresh bs).fault = none := by
    have := h.performed
    rw [Outcome.forEach_append, Outcome.fault_andThen_eq_none_iff] at this
    exact this.1
  have ht : t.Records bs := by
    have := records_fresh.forEach hbefore
    rwa [← forEach_execute_of_actions hbs] at this
  refine ⟨a, ha, ?_, ?_⟩
  · intro r hr
    obtain ⟨addr, hl⟩ := h.defined r (by
      rw [Layout.references, Layout.located_append, List.filterMap_append]
      apply List.mem_append_right
      rw [Layout.located, Nat.zero_add, ← ht.code, List.filterMap_cons_some hr]
      exact List.mem_cons_self)
    exact ⟨addr, (h.records.labels r.label).trans hl⟩
  · rw [h.records.target]
    exact h.showing.intact h.records.size ht

/-- The first halt of the program whose last one meets the data is still there. -/
theorem placed_intact_first_halt :
    ((fresh.withText (haltsText 0x8001)).program.andThen State.resolve).fault = none ∧
      statements (haltsText 0x8001) =
        [.data ['\x01']] ++ .instruction .hlt () :: List.replicate 0x8000 (.instruction .hlt ()) ∧
      ((fresh.withText (haltsText 0x8001)).program.andThen State.resolve).state.image[0]? =
        some 1 := by
  have hf := assemble_collision.1
  have hsplit : statements (haltsText 0x8001) =
      [.data ['\x01']] ++ .instruction .hlt () :: List.replicate 0x8000 (.instruction .hlt ()) := by
    rw [statements_haltsText, List.replicate_succ]
    rfl
  refine ⟨hf, hsplit, ?_⟩
  obtain ⟨a, ha, _, hall⟩ := placed_intact hf hsplit
  obtain rfl : Action.emit .add .hlt = a := Except.ok.inj ha
  have hstart : (Outcome.forEach execute fresh [.data ['\x01']]).state.code = 0 := by
    rw [Outcome.forEach_singleton, execute_of_ok action_data_one]
    rfl
  apply hall (1, 0)
  · rw [Action.placed, hstart]
    decide
  · exact .inl (by decide)

/-- Code that runs into the data can spoil both without a fault. -/
theorem placed_not_always_intact :
    ¬ ∀ (text : List Char) (before after : List Statement) (statement : Statement),
      ((fresh.withText text).program.andThen State.resolve).fault = none →
      statements text = before ++ statement :: after →
      let s := ((fresh.withText text).program.andThen State.resolve).state
      let t := (Outcome.forEach execute fresh before).state
      ∃ a, statement.action = .ok a ∧ ∀ p ∈ a.placed s.target t, s.image[p.2]? = some p.1 := by
  intro h
  obtain ⟨a, ha, hall⟩ := h (haltsText 0x8001) [] _ (.data ['\x01']) assemble_collision.1
    (statements_haltsText _)
  obtain rfl : Action.store .add [1] = a := Except.ok.inj (action_data_one.symm.trans ha)
  have hbyte := hall (1, 0x8000) (by simp [Action.placed, fresh])
  rw [assemble_collision.2] at hbyte
  cases hbyte

end State

end ByteAsm
