import Mathlib

/-!
# Loops that may be left

A loop over a list goes on from element to element until its body says to stop, which leaves
all the loops around it too. A loop within a loop is then one loop over a longer list, and
elements that are passed over might as well be left out of it.
-/

namespace Loops

variable {α β σ : Type*}

/-- Goes through a list until the body answers `true`. -/
def untilStop (body : α → σ → Bool × σ) : List α → σ → Bool × σ
  | [], s => (false, s)
  | a :: l, s =>
      match body a s with
      | (true, s') => (true, s')
      | (false, s') => untilStop body l s'

variable {body body' : α → σ → Bool × σ}

theorem untilStop_append (l l' : List α) (s : σ) :
    untilStop body (l ++ l') s =
      match untilStop body l s with
      | (true, s') => (true, s')
      | (false, s') => untilStop body l' s' := by
  induction l generalizing s with
  | nil => rfl
  | cons a l ih =>
      rw [List.cons_append, untilStop, untilStop]
      cases hbody : body a s with
      | mk stop s' =>
          cases stop with
          | true => rfl
          | false => exact ih s'

theorem untilStop_map (f : β → α) (l : List β) (s : σ) :
    untilStop body (l.map f) s = untilStop (fun b => body (f b)) l s := by
  induction l generalizing s with
  | nil => rfl
  | cons b l ih =>
      rw [List.map_cons, untilStop, untilStop]
      simp only [ih]

/-- A loop within a loop. -/
theorem untilStop_flatMap (f : β → List α) (l : List β) (s : σ) :
    untilStop body (l.flatMap f) s = untilStop (fun b => untilStop body (f b)) l s := by
  induction l generalizing s with
  | nil => rfl
  | cons b l ih =>
      rw [List.flatMap_cons, untilStop_append, untilStop]
      simp only [ih]

/-- What is passed over. -/
theorem untilStop_filterMap (f : β → Option α) (l : List β) (s : σ) :
    untilStop body (l.filterMap f) s =
      untilStop (fun b s => (f b).elim (false, s) fun a => body a s) l s := by
  induction l generalizing s with
  | nil => rfl
  | cons b l ih =>
      rw [untilStop]
      cases hf : f b with
      | none =>
          rw [List.filterMap_cons_none hf, ih]
          rfl
      | some a =>
          rw [List.filterMap_cons_some hf, untilStop]
          simp only [ih]
          rfl

/-- Two loops that count make one. -/
theorem range_mul (a b : Nat) :
    List.range (a * b) = (List.range a).flatMap fun i => (List.range b).map fun j => i * b + j := by
  induction a with
  | zero => simp
  | succ a ih => rw [Nat.succ_mul, List.range_add, ih, List.range_succ, List.flatMap_append,
      List.flatMap_singleton]

/-- What is visited until a body says to stop, and what the body has then. -/
def visitUntil (f : σ → α → σ × Bool) : σ → List α → List α × σ
  | s, [] => ([], s)
  | s, a :: l =>
      match f s a with
      | (s', true) => ([a], s')
      | (s', false) => (a :: (visitUntil f s' l).1, (visitUntil f s' l).2)

end Loops
