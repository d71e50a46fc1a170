import Mathlib

/-!
# Counting the parties of a system

What the parties of a system contribute to a quantity is added up over all of them. A step
changes one party, and with it the sum by what that party had and what it has now. A
quantity that no party contributes to is zero, and of a quantity that is at most one no
two parties have a part.
-/

namespace Census

variable {ι α : Type*} [Fintype ι]

def total (weight : α → Nat) (f : ι → α) : Nat := ∑ i, weight (f i)

theorem le_total (weight : α → Nat) (f : ι → α) (i : ι) : weight (f i) ≤ total weight f :=
  Finset.single_le_sum (f := fun i => weight (f i)) (fun _ _ => Nat.zero_le _) (Finset.mem_univ i)

theorem eq_zero_of_total {weight : α → Nat} {f : ι → α} (h : total weight f = 0) (i : ι) :
    weight (f i) = 0 := Nat.le_zero.mp (h ▸ le_total weight f i)

theorem total_congr {weight : α → Nat} {f g : ι → α} (h : ∀ i, weight (f i) = weight (g i)) :
    total weight f = total weight g := Finset.sum_congr rfl fun i _ => h i

theorem total_eq_zero {weight : α → Nat} {f : ι → α} (h : ∀ i, weight (f i) = 0) :
    total weight f = 0 := Finset.sum_eq_zero fun i _ => h i

theorem total_mono {weight weight' : α → Nat} (h : ∀ a, weight a ≤ weight' a) (f : ι → α) :
    total weight f ≤ total weight' f := Finset.sum_le_sum fun i _ => h (f i)

theorem total_add (weight weight' : α → Nat) (f : ι → α) :
    total (fun a => weight a + weight' a) f = total weight f + total weight' f :=
  Finset.sum_add_distrib

theorem exists_of_total {weight : α → Nat} {f : ι → α} (h : 0 < total weight f) :
    ∃ i, 0 < weight (f i) := by
  by_contra hnone
  exact h.ne' (total_eq_zero fun i => Nat.eq_zero_of_not_pos fun hpos => hnone ⟨i, hpos⟩)

theorem total_le_card {weight : α → Nat} (h : ∀ a, weight a ≤ 1) (f : ι → α) :
    total weight f ≤ Fintype.card ι := by
  have hle := Finset.sum_le_card_nsmul Finset.univ (fun i => weight (f i)) 1 fun i _ => h (f i)
  simpa [total] using hle

/-- When all count one that can, all do. -/
theorem eq_one_of_card {weight : α → Nat} (h : ∀ a, weight a ≤ 1) {f : ι → α}
    (hall : total weight f = Fintype.card ι) (i : ι) : weight (f i) = 1 := by
  have hsum : ∑ j, weight (f j) = ∑ _j : ι, 1 := by
    rw [Finset.sum_const, Finset.card_univ, smul_eq_mul, Nat.mul_one]
    exact hall
  exact (Finset.sum_eq_sum_iff_of_le fun j _ => h (f j)).mp hsum i (Finset.mem_univ i)

variable [DecidableEq ι]

theorem total_update (weight : α → Nat) (f : ι → α) (i : ι) (a : α) :
    total weight (Function.update f i a) + weight (f i) = total weight f + weight a := by
  have hnew := Finset.add_sum_erase Finset.univ (fun j => weight (Function.update f i a j))
    (Finset.mem_univ i)
  have hold := Finset.add_sum_erase Finset.univ (fun j => weight (f j)) (Finset.mem_univ i)
  have hrest : ∑ j ∈ Finset.univ.erase i, weight (Function.update f i a j) =
      ∑ j ∈ Finset.univ.erase i, weight (f j) :=
    Finset.sum_congr rfl fun j hj => by rw [Function.update_of_ne (Finset.ne_of_mem_erase hj)]
  simp only [Function.update_self] at hnew
  rw [total, total]
  omega

theorem add_le_total (weight : α → Nat) (f : ι → α) {i j : ι} (h : j ≠ i) :
    weight (f i) + weight (f j) ≤ total weight f := by
  have hold := Finset.add_sum_erase Finset.univ (fun k => weight (f k)) (Finset.mem_univ i)
  have hle := Finset.single_le_sum (f := fun k => weight (f k)) (fun _ _ => Nat.zero_le _)
    (Finset.mem_erase.mpr ⟨h, Finset.mem_univ j⟩)
  rw [total]
  omega

/-- Of the parties of a list one changes. -/
theorem countP_set {p : α → Bool} {l : List α} {i : Nat} {old : α} (h : l[i]? = some old) (a : α) :
    (l.set i a).countP p + (p old).toNat = l.countP p + (p a).toNat := by
  obtain ⟨hi, rfl⟩ := List.getElem?_eq_some_iff.mp h
  have hpos : (p l[i]).toNat ≤ l.countP p := by
    cases hold : p l[i] with
    | false => exact Nat.zero_le _
    | true => exact List.countP_pos_iff.mpr ⟨l[i], List.getElem_mem hi, hold⟩
  rw [List.countP_set hi]
  cases hold : p l[i] <;> cases hnew : p a <;>
    simp only [hold, Bool.toNat_true, Bool.toNat_false, if_true, Bool.false_eq_true, if_false]
      at hpos ⊢ <;> omega

section

variable {ι : Type*} {p q : ι → Prop} {i : ι} {n : Nat}

/-- Of any number of parties exactly `n` have a property. -/
def Tally (p : ι → Prop) (n : Nat) : Prop := ∃ who : Finset ι, who.card = n ∧ ∀ i, i ∈ who ↔ p i

theorem Tally.congr (h : Tally p n) (hsame : ∀ i, q i ↔ p i) : Tally q n := by
  obtain ⟨who, hcard, hwho⟩ := h
  exact ⟨who, hcard, fun i => (hwho i).trans (hsame i).symm⟩

theorem Tally.none (h : ∀ i, ¬ p i) : Tally p 0 :=
  ⟨∅, Finset.card_empty, fun i => by simp [h i]⟩

theorem Tally.not_of_zero (h : Tally p 0) (i : ι) : ¬ p i := by
  obtain ⟨who, hcard, hwho⟩ := h
  rw [← hwho i, Finset.card_eq_zero.mp hcard]
  exact Finset.notMem_empty i

variable [DecidableEq ι]

/-- One more party has the property. -/
theorem Tally.insert (h : Tally p n) (hold : ¬ p i) (hnew : q i) (hsame : ∀ j, j ≠ i → (q j ↔ p j)) :
    Tally q (n + 1) := by
  obtain ⟨who, hcard, hwho⟩ := h
  refine ⟨Insert.insert i who, ?_, fun j => ?_⟩
  · rw [Finset.card_insert_of_notMem (mt (hwho i).mp hold), hcard]
  · by_cases hj : j = i
    · subst hj
      simp [hnew]
    · simp [hj, hwho j, hsame j hj]

/-- One party that had the property has it no more. -/
theorem Tally.erase (h : Tally p n) (hold : p i) (hnew : ¬ q i) (hsame : ∀ j, j ≠ i → (q j ↔ p j)) :
    0 < n ∧ Tally q (n - 1) := by
  obtain ⟨who, hcard, hwho⟩ := h
  have hmem := (hwho i).mpr hold
  refine ⟨hcard ▸ Finset.card_pos.mpr ⟨i, hmem⟩, who.erase i, ?_, fun j => ?_⟩
  · rw [Finset.card_erase_of_mem hmem, hcard]
  · by_cases hj : j = i
    · subst hj
      simp [hnew]
    · simp [hj, hwho j, hsame j hj]

end

end Census
