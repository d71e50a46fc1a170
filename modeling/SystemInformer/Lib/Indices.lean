import Mathlib

/-!
# The first and the last index

What a search for an index returns: the smallest, or the largest, index below a bound at which a
predicate holds, and nothing if there is none. Each of the two is determined by the predicate and
the bound. A list is searched for a place at which it has an element with a property (`At`).
-/

namespace Indices

def First (P : Nat → Prop) (n : Nat) : Option Nat → Prop
  | some i => i < n ∧ P i ∧ ∀ j < i, ¬ P j
  | none => ∀ j < n, ¬ P j

def Last (P : Nat → Prop) (n : Nat) : Option Nat → Prop
  | some i => i < n ∧ P i ∧ ∀ j, i < j → j < n → ¬ P j
  | none => ∀ j < n, ¬ P j

section

variable {P Q : Nat → Prop} {n : Nat} {r r' : Option Nat}

theorem First.unique (h : First P n r) (h' : First P n r') : r = r' := by
  cases r with
  | none =>
      cases r' with
      | none => rfl
      | some j => exact absurd h'.2.1 (h j h'.1)
  | some i =>
      cases r' with
      | none => exact absurd h.2.1 (h' i h.1)
      | some j =>
          rcases Nat.lt_trichotomy i j with hlt | rfl | hlt
          · exact absurd h.2.1 (h'.2.2 i hlt)
          · rfl
          · exact absurd h'.2.1 (h.2.2 j hlt)

theorem Last.unique (h : Last P n r) (h' : Last P n r') : r = r' := by
  cases r with
  | none =>
      cases r' with
      | none => rfl
      | some j => exact absurd h'.2.1 (h j h'.1)
  | some i =>
      cases r' with
      | none => exact absurd h.2.1 (h' i h.1)
      | some j =>
          rcases Nat.lt_trichotomy i j with hlt | rfl | hlt
          · exact absurd h'.2.1 (h.2.2 j hlt h'.1)
          · rfl
          · exact absurd h.2.1 (h'.2.2 i hlt h.1)

open Classical in
theorem First.congr (h : First P n r) (hPQ : ∀ i < n, P i ↔ Q i) : First Q n r := by
  cases r with
  | none => exact fun j hj => (hPQ j hj).not.mp (h j hj)
  | some i =>
      exact ⟨h.1, (hPQ i h.1).mp h.2.1,
        fun j hj => (hPQ j (hj.trans h.1)).not.mp (h.2.2 j hj)⟩

theorem Last.congr (h : Last P n r) (hPQ : ∀ i < n, P i ↔ Q i) : Last Q n r := by
  cases r with
  | none => exact fun j hj => (hPQ j hj).not.mp (h j hj)
  | some i =>
      exact ⟨h.1, (hPQ i h.1).mp h.2.1, fun j hij hj => (hPQ j hj).not.mp (h.2.2 j hij hj)⟩

/-- The bound may be raised over places at which there is nothing. -/
theorem First.extend {m : Nat} (h : First P m r) (hmn : m ≤ n)
    (hrest : ∀ j, m ≤ j → j < n → ¬ P j) : First P n r := by
  cases r with
  | none => exact fun j hj => (Nat.lt_or_ge j m).elim (h j) fun hge => hrest j hge hj
  | some i => exact ⟨h.1.trans_le hmn, h.2⟩

theorem Last.extend {m : Nat} (h : Last P m r) (hmn : m ≤ n)
    (hrest : ∀ j, m ≤ j → j < n → ¬ P j) : Last P n r := by
  cases r with
  | none => exact fun j hj => (Nat.lt_or_ge j m).elim (h j) fun hge => hrest j hge hj
  | some i =>
      exact ⟨h.1.trans_le hmn, h.2.1,
        fun j hij hj => (Nat.lt_or_ge j m).elim (h.2.2 j hij) fun hge => hrest j hge hj⟩

end

variable {α : Type*} {p : α → Bool} {l : List α} {i : Nat}

def At (p : α → Bool) (l : List α) (i : Nat) : Prop := ∃ x, l[i]? = some x ∧ p x = true

theorem At.lt (h : At p l i) : i < l.length := by
  obtain ⟨x, hx, -⟩ := h
  exact (List.getElem?_eq_some_iff.mp hx).1

theorem at_iff (hi : i < l.length) : At p l i ↔ p l[i] = true := by
  rw [At, List.getElem?_eq_getElem hi]
  constructor
  · rintro ⟨x, hx, hp⟩
    rwa [Option.some.inj hx]
  · exact fun hp => ⟨_, rfl, hp⟩

theorem at_drop {k : Nat} : At p (l.drop k) i ↔ At p l (k + i) := by
  rw [At, At, List.getElem?_drop]

theorem at_take {k : Nat} (hi : i < k) : At p (l.take k) i ↔ At p l i := by
  rw [At, At, List.getElem?_take_of_lt hi]

theorem at_append_left {l' : List α} (hi : i < l.length) : At p (l ++ l') i ↔ At p l i := by
  rw [At, At, List.getElem?_append_left hi]

theorem first_findIdx? (p : α → Bool) (l : List α) :
    First (At p l) l.length (l.findIdx? p) := by
  cases h : l.findIdx? p with
  | none =>
      rintro j hj ⟨x, hx, hp⟩
      have hno := List.findIdx?_eq_none_iff.mp h x (List.mem_of_getElem? hx)
      rw [hno] at hp
      exact Bool.false_ne_true hp
  | some i =>
      obtain ⟨hi, hp, hbefore⟩ := List.findIdx?_eq_some_iff_getElem.mp h
      exact ⟨hi, (at_iff hi).mpr hp, fun j hj hat => hbefore j hj ((at_iff (hj.trans hi)).mp hat)⟩

/-- The last place is the first one of the list turned around. -/
theorem last_findIdx?_reverse (p : α → Bool) (l : List α) :
    Last (At p l) l.length ((l.reverse.findIdx? p).map (l.length - 1 - ·)) := by
  have hturn : ∀ j < l.length, At p l.reverse (l.length - 1 - j) ↔ At p l j := by
    intro j hj
    rw [At, At, List.getElem?_reverse (by omega)]
    rw [show l.length - 1 - (l.length - 1 - j) = j by omega]
  have hfirst := first_findIdx? p l.reverse
  rw [List.length_reverse] at hfirst
  cases h : l.reverse.findIdx? p with
  | none =>
      rw [h] at hfirst
      exact fun j hj hat => hfirst (l.length - 1 - j) (by omega) ((hturn j hj).mpr hat)
  | some i =>
      rw [h] at hfirst
      obtain ⟨hi, hat, hbefore⟩ := hfirst
      refine ⟨show l.length - 1 - i < l.length by omega, ?_,
        fun j (hij : l.length - 1 - i < j) hj hat' => ?_⟩
      · refine (hturn (l.length - 1 - i) (by omega)).mp ?_
        rwa [show l.length - 1 - (l.length - 1 - i) = i by omega]
      · exact hbefore (l.length - 1 - j) (by omega) ((hturn j hj).mpr hat')

section

variable {l' : List α} {r : Option Nat}

theorem at_append_right (hrest : ∀ x ∈ l', p x = false) (hi : l.length ≤ i) :
    ¬ At p (l ++ l') i := by
  rintro ⟨x, hx, hp⟩
  rw [List.getElem?_append_right hi] at hx
  rw [hrest x (List.mem_of_getElem? hx)] at hp
  exact Bool.false_ne_true hp

/-- A list may be continued with what does not match. -/
theorem first_append_iff (hrest : ∀ x ∈ l', p x = false) :
    First (At p (l ++ l')) (l ++ l').length r ↔ First (At p l) l.length r := by
  have hle : l.length ≤ (l ++ l').length := by rw [List.length_append]; omega
  have hafter : ∀ j, l.length ≤ j → j < (l ++ l').length → ¬ At p (l ++ l') j :=
    fun j hj _ => at_append_right hrest hj
  have hback : ∀ r, First (At p l) l.length r → First (At p (l ++ l')) (l ++ l').length r :=
    fun r h => (h.congr fun i hi => (at_append_left hi).symm).extend hle hafter
  refine ⟨fun h => ?_, hback r⟩
  rw [h.unique (hback _ (first_findIdx? p l))]
  exact first_findIdx? p l

theorem last_append_iff (hrest : ∀ x ∈ l', p x = false) :
    Last (At p (l ++ l')) (l ++ l').length r ↔ Last (At p l) l.length r := by
  have hle : l.length ≤ (l ++ l').length := by rw [List.length_append]; omega
  have hafter : ∀ j, l.length ≤ j → j < (l ++ l').length → ¬ At p (l ++ l') j :=
    fun j hj _ => at_append_right hrest hj
  have hback : ∀ r, Last (At p l) l.length r → Last (At p (l ++ l')) (l ++ l').length r :=
    fun r h => (h.congr fun i hi => (at_append_left hi).symm).extend hle hafter
  refine ⟨fun h => ?_, hback r⟩
  rw [h.unique (hback _ (last_findIdx?_reverse p l))]
  exact last_findIdx?_reverse p l

/-- A continuation that matches changes the last place. -/
theorem not_match_of_last (h : Last (At p l) l.length r)
    (h' : Last (At p (l ++ l')) (l ++ l').length r) : ∀ x ∈ l', p x = false := by
  intro x hx
  by_contra hp
  obtain ⟨k, hk, rfl⟩ := List.getElem_of_mem hx
  have hplace : l.length + k < (l ++ l').length := by rw [List.length_append]; omega
  have hat : At p (l ++ l') (l.length + k) := by
    refine (at_iff hplace).mpr ?_
    rw [List.getElem_append_right (Nat.le_add_right _ _)]
    simpa using hp
  cases r with
  | none => exact h' _ hplace hat
  | some i =>
      have hlt : i < l.length := h.1
      exact h'.2.2 _ (by omega) hplace hat

end

end Indices
