import ByteAsm.Proofs.Listing
import ByteAsm.Proofs.Placing

/-! The layout of a program: what code and data its actions give, and at which addresses. A state
that has performed some actions without a fault keeps the books that the layout prescribes, and its
image shows the code and the data wherever the two do not overlap. -/
namespace ByteAsm

namespace Action

/-- The code of an action while the targets of branches are open. -/
def draft : Action → List UInt8
  | emit _ i => i.draft
  | _ => []

def code (target : String → UInt16) : Action → List UInt8
  | emit _ i => (i.map target).encode
  | _ => []

def data : Action → List UInt8
  | store _ bytes => bytes
  | _ => []

def isPad : Action → Bool
  | pad => true
  | _ => false

end Action

@[simp] theorem Instruction.length_operandBytes_map {τ : Type} (f g : τ → UInt16)
    (i : Instruction τ) : (i.map f).operandBytes.length = (i.map g).operandBytes.length := by
  cases i <;> rfl

theorem Action.length_code (target : String → UInt16) (a : Action) :
    (a.code target).length = a.draft.length := by
  cases a with
  | emit p i => simp [code, draft, Instruction.draft, Instruction.encode,
      Instruction.length_operandBytes_map target fun _ => 0]
  | _ => rfl

namespace Layout

variable {addr : Nat} {as bs : List Action} {a : Action} {name : String}

def draft (as : List Action) : List UInt8 := as.flatMap Action.draft

def code (target : String → UInt16) (as : List Action) : List UInt8 := as.flatMap (·.code target)

def data (as : List Action) : List UInt8 := as.flatMap Action.data

/-- The number of zero bytes that actions add to the end of the image. -/
def pads (as : List Action) : Nat := as.countP Action.isPad

/-- Each action with the code address at which it is performed. -/
def located (addr : Nat) : List Action → List (Nat × Action)
  | [] => []
  | a :: as => (addr, a) :: located (addr + a.draft.length) as

def definition? : Nat × Action → Option (String × Nat)
  | (addr, .define name) => some (name, addr)
  | _ => none

def instruction? : Nat × Action → Option (Nat × Instruction String)
  | (addr, .emit _ i) => some (addr, i)
  | _ => none

def reference? (p : Nat × Action) : Option Reference :=
  (instruction? p).bind fun (addr, i) => i.target?.map (⟨·, addr⟩)

def definitions (as : List Action) : List (String × Nat) := (located 0 as).filterMap definition?

def instructions (as : List Action) : List (Nat × Instruction String) :=
  (located 0 as).filterMap instruction?

def references (as : List Action) : List Reference := (located 0 as).filterMap reference?

/-- The address of a name is that of its last definition. -/
def address? (as : List Action) (name : String) : Option Nat :=
  (definitions as).reverse.lookup name

@[simp] theorem draft_append (as bs : List Action) : draft (as ++ bs) = draft as ++ draft bs := by
  simp [draft]

@[simp] theorem code_append (target : String → UInt16) (as bs : List Action) :
    code target (as ++ bs) = code target as ++ code target bs := by
  simp [code]

@[simp] theorem data_append (as bs : List Action) : data (as ++ bs) = data as ++ data bs := by
  simp [data]

@[simp] theorem draft_cons (a : Action) (as : List Action) :
    draft (a :: as) = a.draft ++ draft as := rfl

@[simp] theorem code_cons (target : String → UInt16) (a : Action) (as : List Action) :
    code target (a :: as) = a.code target ++ code target as := rfl

@[simp] theorem data_cons (a : Action) (as : List Action) : data (a :: as) = a.data ++ data as := rfl

@[simp] theorem draft_nil : draft [] = [] := rfl

@[simp] theorem code_nil (target : String → UInt16) : code target [] = [] := rfl

@[simp] theorem data_nil : data [] = [] := rfl

theorem length_code (target : String → UInt16) (as : List Action) :
    (code target as).length = (draft as).length := by
  induction as with
  | nil => rfl
  | cons a as ih =>
    simp [ih, a.length_code target]

theorem located_append (addr : Nat) (as bs : List Action) :
    located addr (as ++ bs) = located addr as ++ located (addr + (draft as).length) bs := by
  induction as generalizing addr with
  | nil => simp [located]
  | cons a as ih => simp [located, ih, Nat.add_assoc]

theorem filterMap_located_concat {α : Type} (f : Nat × Action → Option α) (as : List Action)
    (a : Action) : (located 0 (as ++ [a])).filterMap f =
      (located 0 as).filterMap f ++ (f ((draft as).length, a)).toList := by
  rw [located_append, List.filterMap_append]
  cases h : f ((draft as).length, a) <;> simp [located, h]

theorem address?_concat (as : List Action) (a : Action) (name : String) :
    address? (as ++ [a]) name =
      if definition? ((draft as).length, a) = some (name, (draft as).length)
      then some (draft as).length else address? as name := by
  rw [address?, definitions, filterMap_located_concat, List.reverse_append]
  cases a with
  | define other =>
    by_cases h : other = name
    · simp [definition?, h]
    · simp [definition?, h, List.lookup_cons, beq_false_of_ne (Ne.symm h), address?, definitions]
  | _ => simp [definition?, address?, definitions]

theorem le_of_mem_located {p : Nat × Action} (hp : p ∈ located addr as) :
    p.1 ≤ addr + (draft as).length := by
  induction as generalizing addr with
  | nil => simp [located] at hp
  | cons a as ih =>
    rw [draft_cons, List.length_append]
    rcases List.mem_cons.1 hp with rfl | hp
    · exact Nat.le_add_right _ _
    · have := ih hp
      omega

theorem exists_located_of_address? {name : String} (h : address? as name = some addr) :
    ∃ p ∈ located 0 as, p.1 = addr := by
  obtain ⟨front, back, hsplit, _⟩ := List.lookup_eq_some_iff.1 h
  have hmem : (name, addr) ∈ definitions as := by
    rw [← List.mem_reverse, hsplit]
    exact List.mem_append_right _ List.mem_cons_self
  obtain ⟨⟨place, a⟩, hp, hd⟩ := List.mem_filterMap.1 hmem
  refine ⟨_, hp, ?_⟩
  cases a <;> simp [definition?] at hd
  exact hd.2

theorem address?_le {name : String} (h : address? as name = some addr) :
    addr ≤ (draft as).length := by
  obtain ⟨p, hp, rfl⟩ := exists_located_of_address? h
  have := le_of_mem_located hp
  omega

theorem mem_references {p : Nat × Instruction String} {name : String} (hp : p ∈ instructions as)
    (hn : p.2.target? = some name) : ⟨name, p.1⟩ ∈ references as := by
  obtain ⟨q, hq, hi⟩ := List.mem_filterMap.1 hp
  refine List.mem_filterMap.2 ⟨q, hq, ?_⟩
  simp [reference?, hi, hn]

end Layout

namespace State

variable {s : State} {as : List Action} {a : Action} {code data : List UInt8}

theorem perform_define (s : State) (name : String) :
    s.perform (.define name) =
      ⟨{ s with labels := s.labels.insert name s.code }, [.labelDefined name s.code], none⟩ := rfl

theorem perform_emit (s : State) (p : Placement) (i : Instruction String) :
    s.perform (.emit p i) =
      ⟨{ s with
          image := (s.image.place p s.code i.draft).image
          code := (s.image.place p s.code i.draft).next
          references := i.refer s.code s.references },
        [], (s.image.place p s.code i.draft).fault.map .image⟩ := rfl

theorem perform_pad (s : State) : s.perform .pad = ⟨{ s with image := s.image.push 0 }, [], none⟩ := rfl

theorem perform_store (s : State) (p : Placement) (bytes : List UInt8) :
    s.perform (.store p bytes) =
      ⟨{ s with
          image := (s.image.place p s.data bytes).image
          data := (s.image.place p s.data bytes).next },
        if (s.image.place p s.data bytes).fault.isSome then [] else [.dataStored bytes],
        (s.image.place p s.data bytes).fault.map .image⟩ := rfl

@[simp] theorem size_perform (s : State) (a : Action) :
    (s.perform a).state.image.size = s.image.size + Layout.pads [a] := by
  cases a with
  | emit p i => simp [perform_emit, Layout.pads, Action.isPad]
  | store p bytes => simp [perform_store, Layout.pads, Action.isPad]
  | pad => simp [perform_pad, Layout.pads, Action.isPad]
  | _ => rfl

theorem code_perform (hf : (s.perform a).fault = none) :
    (s.perform a).state.code = s.code + a.draft.length := by
  cases a with
  | emit p i =>
    rw [perform_emit] at hf
    exact Image.next_place_of_fault_none (Option.map_eq_none_iff.1 hf)
  | _ => rfl

theorem data_perform (hf : (s.perform a).fault = none) :
    (s.perform a).state.data = s.data + a.data.length := by
  cases a with
  | store p bytes =>
    rw [perform_store] at hf
    exact Image.next_place_of_fault_none (Option.map_eq_none_iff.1 hf)
  | _ => rfl

theorem labels_perform (s : State) (a : Action) (name : String) :
    (s.perform a).state.labels[name]? =
      if Layout.definition? (s.code, a) = some (name, s.code) then some s.code
      else s.labels[name]? := by
  cases a with
  | define other =>
    rw [perform_define, Std.TreeMap.getElem?_insert]
    simp [Layout.definition?]
  | _ => rfl

theorem references_perform (s : State) (a : Action) :
    (s.perform a).state.references.toList =
      s.references.toList ++ (Layout.reference? (s.code, a)).toList := by
  cases a with
  | emit p i =>
    rw [perform_emit]
    unfold Instruction.refer
    cases h : i.target? <;> simp [Layout.reference?, Layout.instruction?, h]
  | _ => simp [State.perform, Layout.reference?, Layout.instruction?]

/-- The books of a state that has performed some actions from the start. -/
structure Records (s : State) (as : List Action) : Prop where
  size : s.image.size = 0x10000 + Layout.pads as
  code : s.code = (Layout.draft as).length
  data : s.data = 0x8000 + (Layout.data as).length
  labels : ∀ name, s.labels[name]? = Layout.address? as name
  references : s.references.toList = Layout.references as

theorem records_fresh : fresh.Records [] where
  size := by simp [fresh, Layout.pads]
  code := rfl
  data := rfl
  labels := by intro name; simp [fresh, Layout.address?, Layout.definitions, Layout.located]
  references := rfl

theorem Records.retext (h : s.Records as) (text : Option (List Char)) :
    Records { s with text := text } as :=
  ⟨h.size, h.code, h.data, h.labels, h.references⟩

/-- An action without a fault is entered in the books. -/
theorem Records.perform (h : s.Records as) (hf : (s.perform a).fault = none) :
    (s.perform a).state.Records (as ++ [a]) where
  size := by simp [h.size, Layout.pads, Nat.add_assoc]
  code := by simp [code_perform hf, h.code]
  data := by simp [data_perform hf, h.data, Nat.add_assoc]
  labels := by
    intro name
    rw [labels_perform, Layout.address?_concat, h.labels, h.code]
  references := by
    rw [references_perform, h.references, h.code]
    exact (Layout.filterMap_located_concat Layout.reference? as a).symm

/-- The code and the data that a state shows, the code from the bottom of the image on and the
data from the middle on. -/
structure Shows (s : State) (code data : List UInt8) : Prop where
  code_eq : s.code = code.length
  data_eq : s.data = 0x8000 + data.length
  image : s.image.Shows 0 code 0x8000 data

theorem shows_fresh : fresh.Shows [] [] where
  code_eq := rfl
  data_eq := rfl
  image := by
    constructor
    · exact Nat.zero_le _
    · simp [fresh]
    · intro i _ hlt
      exact absurd hlt (Nat.not_lt_zero i)
    · intro i hge hlt
      exact absurd hlt (Nat.not_lt.2 hge)
    · intro i hi _ _
      simp only [fresh, Array.size_replicate] at hi
      simp [fresh, hi]

theorem Shows.data_le (h : s.Shows code data) : s.data ≤ s.image.size := by
  have := h.image.right_le
  rwa [← h.data_eq] at this

theorem Shows.code_byte (h : s.Shows code data) (i : Nat) (hi : i < s.code)
    (hout : i < 0x8000 ∨ s.data ≤ i) : s.image[i]? = code[i]? := by
  rw [h.code_eq, ← Nat.zero_add code.length] at hi
  rw [h.data_eq] at hout
  exact h.image.left i (Nat.zero_le i) hi hout

theorem Shows.data_byte (h : s.Shows code data) (i : Nat) (hi : i < s.data) (hge : 0x8000 ≤ i)
    (hout : s.code ≤ i) : s.image[i]? = data[i - 0x8000]? := by
  rw [h.data_eq] at hi
  rw [h.code_eq, ← Nat.zero_add code.length] at hout
  exact h.image.right i hge hi (.inr hout)

theorem Shows.zero (h : s.Shows code data) (i : Nat) (hi : i < s.image.size)
    (hcode : s.code ≤ i) (hdata : i < 0x8000 ∨ s.data ≤ i) : s.image[i]? = some 0 := by
  rw [h.code_eq, ← Nat.zero_add code.length] at hcode
  rw [h.data_eq] at hdata
  exact h.image.zero i hi (.inr hcode) hdata

theorem Shows.retext (h : s.Shows code data) (text : Option (List Char)) :
    Shows { s with text := text } code data :=
  ⟨h.code_eq, h.data_eq, h.image⟩

/-- An action without a fault shows its code and its data behind what is there. -/
theorem Shows.perform (h : s.Shows code data) (hf : (s.perform a).fault = none) :
    (s.perform a).state.Shows (code ++ a.draft) (data ++ a.data) := by
  have hcode := code_perform hf
  have hdata := data_perform hf
  rw [h.code_eq, ← List.length_append] at hcode
  rw [h.data_eq, Nat.add_assoc, ← List.length_append] at hdata
  refine ⟨hcode, hdata, ?_⟩
  cases a with
  | emit p i =>
    have he : s.code = 0 + code.length := by rw [h.code_eq, Nat.zero_add]
    simp only [perform_emit, he, Action.draft, Action.data, List.append_nil] at hf ⊢
    exact h.image.place (Option.map_eq_none_iff.1 hf)
  | store p bytes =>
    simp only [perform_store, h.data_eq, Action.draft, Action.data, List.append_nil] at hf ⊢
    exact (h.image.symm.place (Option.map_eq_none_iff.1 hf)).symm
  | pad =>
    simp only [Action.draft, Action.data, List.append_nil]
    exact h.image.push
  | _ =>
    simp only [Action.draft, Action.data, List.append_nil]
    exact h.image

theorem Records.forEach (h : s.Records as) {bs : List Action}
    (hf : (Outcome.forEach State.perform s bs).fault = none) :
    (Outcome.forEach State.perform s bs).state.Records (as ++ bs) :=
  Outcome.forEach_trace Records as h (fun h hf => h.perform hf) hf

theorem Shows.forEach (h : s.Shows code data) {bs : List Action}
    (hf : (Outcome.forEach State.perform s bs).fault = none) :
    (Outcome.forEach State.perform s bs).state.Shows (code ++ Layout.draft bs)
      (data ++ Layout.data bs) := by
  refine Outcome.forEach_trace
    (fun t as => t.Shows (code ++ Layout.draft as) (data ++ Layout.data as)) [] (by simpa) ?_ hf
  intro t as a ht hf
  simpa [List.append_assoc] using ht.perform hf

/-- An action meets no fault while the code ends below the data and the data below the end. -/
theorem Shows.fault_perform (h : s.Shows code data) (hsize : 0x10000 ≤ s.image.size)
    (hcode : (code ++ a.draft).length ≤ 0x8000) (hdata : (data ++ a.data).length ≤ 0x8000) :
    (s.perform a).fault = none := by
  rw [List.length_append] at hcode hdata
  cases a with
  | emit p i =>
    have he : s.code = 0 + code.length := by rw [h.code_eq, Nat.zero_add]
    change code.length + i.draft.length ≤ 0x8000 at hcode
    rw [perform_emit, he]
    exact Option.map_eq_none_iff.2 (h.image.fault_place (by omega) (.inl (by omega)))
  | store p bytes =>
    change data.length + bytes.length ≤ 0x8000 at hdata
    rw [perform_store, h.data_eq]
    exact Option.map_eq_none_iff.2 (h.image.symm.fault_place (by omega) (.inr (by omega)))
  | _ => rfl

theorem Shows.fault_forEach (h : s.Shows code data) {bs : List Action}
    (hsize : 0x10000 ≤ s.image.size) (hcode : (code ++ Layout.draft bs).length ≤ 0x8000)
    (hdata : (data ++ Layout.data bs).length ≤ 0x8000) :
    (Outcome.forEach State.perform s bs).fault = none := by
  induction bs generalizing s code data with
  | nil => rfl
  | cons a bs ih =>
    simp only [Layout.draft_cons, Layout.data_cons, List.length_append] at hcode hdata
    have hf : (s.perform a).fault = none :=
      h.fault_perform hsize (by rw [List.length_append]; omega) (by rw [List.length_append]; omega)
    rw [Outcome.forEach_cons, Outcome.fault_andThen_eq_none_iff]
    refine ⟨hf, ih (h.perform hf) ?_ ?_ ?_⟩
    · rw [size_perform]
      omega
    · simp only [List.length_append]
      omega
    · simp only [List.length_append]
      omega

end State

end ByteAsm
