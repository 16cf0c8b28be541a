import ByteAsm.Proofs.Denotation
import Mathlib.Data.List.Induction

/-! The labels that texts define and branch to, as they stand in the texts, and the addresses that
they are given. A name that is defined again moves to the later address. -/
namespace ByteAsm

open Source

namespace Source

def Statement.defines? : Statement → Option String
  | label name => some name
  | _ => none

def Statement.branchesTo? : Statement → Option String
  | instruction (.branch _) (name, ()) => some name
  | _ => none

def definedNames (text : List Char) : List String := (statements text).filterMap Statement.defines?

def branchNames (text : List Char) : List String :=
  (statements text).filterMap Statement.branchesTo?

/-- The first label that a text branches to and that is defined neither there nor before. -/
def undefinedName? (before : List (List Char)) (text : List Char) : Option String :=
  (branchNames text).find? fun name => name ∉ (before ++ [text]).flatMap definedNames

/-- Every branch goes to a label of the same text or of one before it. -/
def SelfContained (texts : List (List Char)) : Prop :=
  ∀ before text after, texts = before ++ text :: after →
    ∀ name ∈ branchNames text, name ∈ (before ++ [text]).flatMap definedNames

theorem undefinedName?_eq_none_iff {before : List (List Char)} {text : List Char} :
    undefinedName? before text = none ↔
      ∀ name ∈ branchNames text, name ∈ (before ++ [text]).flatMap definedNames := by
  simp only [undefinedName?, List.find?_eq_none, decide_eq_true_eq, not_not]

namespace Statement

variable {statement : Statement} {a : Action}

theorem definition?_of_action (h : statement.action = .ok a) (addr : Nat) :
    (Layout.definition? (addr, a)).map Prod.fst = statement.defines? := by
  cases acts_of_action h <;> rfl

theorem reference?_of_action (h : statement.action = .ok a) (addr : Nat) :
    (Layout.reference? (addr, a)).map Reference.label = statement.branchesTo? := by
  cases acts_of_action h with
  | label | data | nop | unknown => rfl
  | @instruction op operands i hop hi =>
    have hopcode := Opcode.opcode_of_instruction hi
    cases op with
    | branch op =>
      cases hi
      rfl
    | _ => cases i <;> cases hopcode; all_goals rfl

end Statement

end Source

namespace Layout

variable {as bs : List Action} {list : List Statement} {addr : Nat} {name : String}
  {texts : List (List Char)}

theorem map_located {α : Type} {f : Nat × Action → Option α} {g : α → String}
    {name? : Statement → Option String}
    (hname : ∀ statement a addr, statement.action = .ok a → (f (addr, a)).map g = name? statement)
    (has : HasActions list as) : ((located addr as).filterMap f).map g = list.filterMap name? := by
  induction has generalizing addr with
  | nil => rfl
  | @cons statement a list as ha _ ih =>
    rw [located, List.filterMap_cons, List.filterMap_cons, ← hname statement a addr ha]
    cases f (addr, a) with
    | none => exact ih
    | some x => exact congrArg (g x :: ·) ih

theorem lookup_reverse_eq_none_iff {entries : List (String × Nat)} :
    entries.reverse.lookup name = none ↔ name ∉ entries.map Prod.fst := by
  rw [List.lookup_eq_none_iff]
  constructor
  · intro h hmem
    obtain ⟨p, hp, rfl⟩ := List.mem_map.1 hmem
    simpa using h p (List.mem_reverse.2 hp)
  · intro h p hp
    rw [bne_iff_ne]
    rintro rfl
    exact h (List.mem_map_of_mem (List.mem_reverse.1 hp))

theorem references_append : references (as ++ bs) =
    references as ++ (located (draft as).length bs).filterMap reference? := by
  rw [references, located_append, Nat.zero_add, List.filterMap_append]
  rfl

theorem address?_eq_none_iff_of_actions (has : HasActions list as) :
    address? as name = none ↔ name ∉ list.filterMap Statement.defines? := by
  rw [address?, lookup_reverse_eq_none_iff, definitions,
    map_located (fun _ _ addr h => Statement.definition?_of_action h addr) has]

theorem address?_eq_none_iff (has : HasActions (texts.flatMap statements) as) :
    address? as name = none ↔ name ∉ texts.flatMap definedNames := by
  rw [address?_eq_none_iff_of_actions has, List.filterMap_flatMap]
  rfl

theorem address?_append_of_actions (hbs : HasActions list bs)
    (h : name ∉ list.filterMap Statement.defines?) : address? (as ++ bs) name = address? as name := by
  have hlater : ((located (draft as).length bs).filterMap definition?).reverse.lookup name = none := by
    rwa [lookup_reverse_eq_none_iff,
      map_located (fun _ _ addr h => Statement.definition?_of_action h addr) hbs]
  rw [address?, definitions, located_append, Nat.zero_add, List.filterMap_append,
    List.reverse_append, List.lookup_append, hlater, Option.none_or]
  rfl

theorem address?_of_draft_nil (as : List Action) {bs cs : List Action}
    (h : draft (bs ++ .define name :: cs) = []) :
    address? (as ++ (bs ++ .define name :: cs)) name = some (draft as).length := by
  induction cs using List.reverseRecOn with
  | nil =>
    have hbs : draft bs = [] := (List.append_eq_nil_iff.1 ((draft_append ..).symm.trans h)).1
    rw [← List.append_assoc, address?_concat, definition?]
    simp [hbs]
  | append_singleton cs c ih =>
    rw [← List.cons_append, ← List.append_assoc, draft_append, List.append_eq_nil_iff] at h
    rw [← List.cons_append, ← List.append_assoc, ← List.append_assoc, address?_concat,
      List.append_assoc, ih h.1]
    split
    · simp [h.1]
    · rfl

theorem address?_append (hbs : HasActions (texts.flatMap statements) bs)
    (h : name ∉ texts.flatMap definedNames) : address? (as ++ bs) name = address? as name := by
  apply address?_append_of_actions hbs
  rwa [List.filterMap_flatMap]

end Layout

end ByteAsm
