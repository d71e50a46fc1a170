import Mathlib

/-!
# Trimming

What is trimmed from the ends of a list, and what one notion of blank leaves that another one
would trim too.
-/

namespace Trimming

variable {α : Type*} {p q : α → Bool} {l t : List α}

def trim (p : α → Bool) (l : List α) : List α := (l.dropWhile p).rdropWhile p

theorem dropWhile_eq_self (h : ∀ a ∈ l.head?, p a = false) : l.dropWhile p = l := by
  cases l with
  | nil => rfl
  | cons a l => exact List.dropWhile_cons_of_neg (by simp [h a rfl])

theorem rdropWhile_eq_self (h : ∀ a ∈ l.getLast?, p a = false) : l.rdropWhile p = l := by
  rw [List.rdropWhile, dropWhile_eq_self, List.reverse_reverse]
  intro a ha
  rw [List.head?_reverse] at ha
  exact h a ha

section

variable (hpq : ∀ a, p a = true → q a = true)
include hpq

theorem length_takeWhile (l : List α) :
    (l.takeWhile q).length = (l.takeWhile p).length + ((l.dropWhile p).takeWhile q).length := by
  induction l with
  | nil => rfl
  | cons a l ih =>
      by_cases ha : p a = true
      · rw [List.dropWhile_cons_of_pos ha, List.takeWhile_cons_of_pos ha,
          List.takeWhile_cons_of_pos (hpq a ha), List.length_cons, List.length_cons, ih]
        omega
      · rw [List.dropWhile_cons_of_neg ha, List.takeWhile_cons_of_neg ha, List.length_nil,
          Nat.zero_add]

end

/-! ## How much is trimmed -/

theorem head?_dropWhile_eq (p : α → Bool) (l : List α) :
    (l.dropWhile p).head? = l.find? (fun a => !p a) := by
  induction l with
  | nil => rfl
  | cons a l ih =>
      cases ha : p a with
      | true =>
          rw [List.dropWhile_cons_of_pos ha, List.find?_cons_of_neg (by simp [ha]), ih]
      | false =>
          rw [List.dropWhile_cons_of_neg (by simp [ha]), List.find?_cons_of_pos (by simp [ha])]
          rfl

/-- The first element that one notion keeps is a blank of the other one, or both trim as much. -/
theorem takeWhile_length_eq_iff (hpq : ∀ a, p a = true → q a = true) (l : List α) :
    (l.takeWhile q).length = (l.takeWhile p).length ↔
      ∀ a ∈ l.find? (fun a => !p a), q a = false := by
  rw [length_takeWhile hpq, ← head?_dropWhile_eq]
  cases l.dropWhile p with
  | nil => exact iff_of_true rfl fun a ha => by cases ha
  | cons a t =>
      cases ha : q a with
      | true =>
          rw [List.takeWhile_cons_of_pos ha, List.length_cons]
          refine iff_of_false (by omega) fun h => ?_
          rw [h a rfl] at ha
          exact Bool.false_ne_true ha
      | false =>
          rw [List.takeWhile_cons_of_neg (by simp [ha])]
          refine iff_of_true rfl fun b hb => ?_
          obtain rfl := Option.some.inj hb
          exact ha

theorem drop_length_takeWhile (p : α → Bool) (l : List α) :
    l.drop (l.takeWhile p).length = l.dropWhile p := by
  have h := @List.drop_left _ (l.takeWhile p) (l.dropWhile p)
  rwa [List.takeWhile_append_dropWhile] at h

theorem length_rdropWhile (p : α → Bool) (l : List α) :
    (l.rdropWhile p).length + (l.reverse.takeWhile p).length = l.length := by
  rw [List.rdropWhile, List.length_reverse, Nat.add_comm, ← List.length_append,
    List.takeWhile_append_dropWhile, List.length_reverse]

theorem rdropWhile_length_eq_iff (hpq : ∀ a, p a = true → q a = true) (l : List α) :
    (l.rdropWhile q).length = (l.rdropWhile p).length ↔
      ∀ a ∈ l.reverse.find? (fun a => !p a), q a = false := by
  rw [← takeWhile_length_eq_iff hpq]
  have hp := length_rdropWhile p l
  have hq := length_rdropWhile q l
  omega

/-- Trimming the start does not change the last element that is kept. -/
theorem find?_reverse_dropWhile (p : α → Bool) (l : List α) :
    (l.dropWhile p).reverse.find? (fun a => !p a) = l.reverse.find? (fun a => !p a) := by
  have hno : (l.takeWhile p).reverse.find? (fun a => !p a) = none := by
    refine List.find?_eq_none.mpr fun a ha => ?_
    rw [List.mem_takeWhile_imp (List.mem_reverse.mp ha)]
    exact Bool.false_ne_true
  conv_rhs => rw [← List.takeWhile_append_dropWhile (p := p) (l := l), List.reverse_append,
    List.find?_append, hno, Option.or_none]

end Trimming
