import ByteAsm.Fault
import ByteAsm.Notice

/-! Outcomes: the state after an operation, what was reported and what stopped it. A fault does
not undo what was done before it. -/
namespace ByteAsm

structure Outcome (σ : Type) where
  state : σ
  notices : List Notice
  fault : Option Fault

namespace Outcome

variable {σ α : Type}

def after (notices : List Notice) (o : Outcome σ) : Outcome σ :=
  { o with notices := notices ++ o.notices }

/-- Go on from an outcome unless a fault has stopped it. -/
def andThen (o : Outcome σ) (next : σ → Outcome σ) : Outcome σ :=
  match o with
  | ⟨s, notices, none⟩ => (next s).after notices
  | ⟨s, notices, some f⟩ => ⟨s, notices, some f⟩

/-- Do something for each member of a list in turn, up to the first fault. `log` holds the
notices so far, the latest first. -/
def forEachFrom (log : List Notice) (f : σ → α → Outcome σ) (s : σ) : List α → Outcome σ
  | [] => ⟨s, log.reverse, none⟩
  | a :: as =>
    match f s a with
    | ⟨s, notices, none⟩ => forEachFrom (notices.reverse ++ log) f s as
    | ⟨s, notices, some e⟩ => ⟨s, log.reverse ++ notices, some e⟩

def forEach (f : σ → α → Outcome σ) (s : σ) (as : List α) : Outcome σ := forEachFrom [] f s as

@[simp] theorem after_nil (o : Outcome σ) : o.after [] = o := rfl

@[simp] theorem after_after (xs ys : List Notice) (o : Outcome σ) :
    (o.after ys).after xs = o.after (xs ++ ys) := by
  simp [after]

theorem forEachFrom_eq (log : List Notice) (f : σ → α → Outcome σ) (s : σ) (as : List α) :
    forEachFrom log f s as = (forEach f s as).after log.reverse := by
  induction as generalizing log s with
  | nil => simp [forEach, forEachFrom, after]
  | cons a as ih =>
    rw [forEach, forEachFrom, forEachFrom]
    split
    · rw [ih, ih (_ ++ [])]
      simp
    · simp [after]

@[simp] theorem forEach_nil (f : σ → α → Outcome σ) (s : σ) : forEach f s [] = ⟨s, [], none⟩ := rfl

theorem forEach_cons (f : σ → α → Outcome σ) (s : σ) (a : α) (as : List α) :
    forEach f s (a :: as) = (f s a).andThen fun s => forEach f s as := by
  rw [forEach, forEachFrom]
  split
  · rename_i h
    simp [andThen, h, forEachFrom_eq]
  · rename_i h
    simp [andThen, h]

end Outcome

end ByteAsm
