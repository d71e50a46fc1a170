import Mathlib

/-!
# Walking a list that changes

A walk through a list without duplicates is at an element, which it has or has not dealt
with, before the first element or past the last one. What lies behind it is read off the
list as it is now. That does not change when an element is appended, nor, for the elements
that stay, when one that the walk is not at is taken out.
-/

namespace ListWalk

variable {α : Type*} [DecidableEq α]

def before (l : List α) (c : α) : List α := l.takeWhile (· ≠ c)

def after (l : List α) (c : α) : List α := (l.dropWhile (· ≠ c)).tail

variable {l a b : List α} {c d r x : α}

theorem ne_of_notMem (h : c ∉ a) : ∀ y ∈ a, decide (y ≠ c) = true := by
  intro y hy
  have hne : y ≠ c := fun heq => h (heq ▸ hy)
  simp [hne]

theorem before_split (h : c ∉ a) : before (a ++ c :: b) c = a := by
  rw [before, List.takeWhile_append_of_pos (ne_of_notMem h)]
  simp

theorem after_split (h : c ∉ a) : after (a ++ c :: b) c = b := by
  rw [after, List.dropWhile_append_of_pos (ne_of_notMem h)]
  simp

theorem notMem_before (l : List α) (c : α) : c ∉ before l c := by
  intro h
  simpa using List.mem_takeWhile_imp h

theorem before_append (h : c ∈ l) : before (l ++ b) c = before l c := by
  obtain ⟨a, b', rfl, hnot⟩ := List.eq_append_cons_of_mem h
  rw [before_split hnot, List.append_assoc, List.cons_append, before_split hnot]

theorem mem_before_erase (h : c ∈ l) (hc : x ≠ c) (hr : r ≠ x) :
    r ∈ before (l.erase x) c ↔ r ∈ before l c := by
  obtain ⟨a, b, rfl, hnot⟩ := List.eq_append_cons_of_mem h
  rw [before_split hnot, List.erase_append]
  split
  · rw [before_split fun hmem => hnot (List.mem_of_mem_erase hmem), List.mem_erase_of_ne hr]
  · rw [List.erase_cons_tail (by simpa using hc.symm), before_split hnot]

/-- The step to the next element. -/
theorem before_next (hnodup : l.Nodup) (h : c ∈ l) (hnext : (after l c).head? = some d) :
    d ∈ l ∧ before l d = before l c ++ [c] := by
  obtain ⟨a, b, rfl, hnot⟩ := List.eq_append_cons_of_mem h
  rw [after_split hnot] at hnext
  obtain ⟨b, rfl⟩ : ∃ b', b = d :: b' := List.head?_eq_some_iff.mp hnext
  rw [List.append_cons] at hnodup
  have hd : d ∉ a ++ [c] := fun hmem => (List.disjoint_of_nodup_append hnodup) hmem (by simp)
  rw [before_split hnot]
  refine ⟨by simp, ?_⟩
  rw [List.append_cons, before_split hd]

theorem all_before (h : c ∈ l) (hlast : (after l c).head? = none) : l = before l c ++ [c] := by
  obtain ⟨a, b, rfl, hnot⟩ := List.eq_append_cons_of_mem h
  rw [after_split hnot, List.head?_eq_none_iff] at hlast
  rw [before_split hnot, hlast]

inductive Walk (α : Type*) where
  | start
  | before (c : α)
  | past (c : α)
  | finished

namespace Walk

def cursor : Walk α → Option α
  | .before c => some c
  | .past c => some c
  | _ => none

def visited (l : List α) : Walk α → List α
  | .start => []
  | .before c => ListWalk.before l c
  | .past c => ListWalk.before l c ++ [c]
  | .finished => l

variable {w : Walk α}

theorem mem_visited_append (hcursor : ∀ c, w.cursor = some c → c ∈ l) (hr : r ∈ l) :
    r ∈ w.visited (l ++ b) ↔ r ∈ w.visited l := by
  cases w with
  | start => simp [visited]
  | before c => rw [visited, visited, before_append (hcursor c rfl)]
  | past c => rw [visited, visited, before_append (hcursor c rfl)]
  | finished => simp [visited, hr]

theorem mem_visited_erase (hcursor : ∀ c, w.cursor = some c → c ∈ l) (hx : w.cursor ≠ some x)
    (hr : r ≠ x) : r ∈ w.visited (l.erase x) ↔ r ∈ w.visited l := by
  have hne : ∀ c, w.cursor = some c → x ≠ c := fun c hc heq => hx (heq ▸ hc)
  cases w with
  | start => simp [visited]
  | before c => exact mem_before_erase (hcursor c rfl) (hne c rfl) hr
  | past c =>
      simp only [visited, List.mem_append, mem_before_erase (hcursor c rfl) (hne c rfl) hr]
  | finished => simp [visited, List.mem_erase_of_ne hr]

end Walk

end ListWalk
