import Mathlib

/-!
# Sums with an end-around carry

A sum of digits in base `b` that adds the carry out of the digit to its end stays a digit, and is
the sum modulo `b - 1`. The multiples of `b - 1` have two digits to stand for them, `0` and `b - 1`;
a sum is `0` only when all that is summed is. Taking a digit away again with a borrow keeps the
value modulo `b - 1`, but ends at either of the two.
-/

namespace EndAround

variable {b : Nat}

/-- The carry out of the digit, added to its end. -/
def carryIn (b s : Nat) : Nat := s / b + s % b

/-- The sum of digits with an end-around carry. -/
def sum (b : Nat) (l : List Nat) : Nat := l.foldl (fun s a => carryIn b (s + a)) 0

/-- Takes away `a` with an end-around borrow. -/
def subBorrow (b p a : Nat) : Nat := if p < a then p + (b - 1) - a else p - a

/-- The digit that a sum is, of those that stand for its value. -/
def digitOf (b t : Nat) : Nat := if t = 0 then 0 else (t - 1) % (b - 1) + 1

theorem digitOf_lt (hb : 2 ≤ b) (t : Nat) : digitOf b t < b := by
  rw [digitOf]
  split
  · omega
  · have h := Nat.mod_lt (t - 1) (show 0 < b - 1 by omega)
    omega

theorem digitOf_of_lt {t : Nat} (h : t < b) : digitOf b t = t := by
  rw [digitOf]
  split
  · next hzero => exact hzero.symm
  · next hpos =>
      rw [Nat.mod_eq_of_lt (by omega)]
      omega

theorem digitOf_mod (t : Nat) : digitOf b t % (b - 1) = t % (b - 1) := by
  rw [digitOf]
  split
  · next hzero => rw [hzero]
  · next hpos =>
      rw [Nat.mod_add_mod, Nat.sub_add_cancel (Nat.pos_of_ne_zero hpos)]

theorem digitOf_digitOf_add (t a : Nat) : digitOf b (digitOf b t + a) = digitOf b (t + a) := by
  rcases Nat.eq_zero_or_pos t with rfl | ht
  · rfl
  · have hdigit : digitOf b t = (t - 1) % (b - 1) + 1 := if_neg (Nat.pos_iff_ne_zero.mp ht)
    rw [hdigit, digitOf, if_neg (by omega), digitOf, if_neg (by omega),
      show (t - 1) % (b - 1) + 1 + a - 1 = (t - 1) % (b - 1) + a by omega, Nat.mod_add_mod,
      show t - 1 + a = t + a - 1 by omega]

theorem carryIn_add {s a : Nat} (hs : s < b) (ha : a < b) : carryIn b (s + a) = digitOf b (s + a) := by
  rcases Nat.lt_or_ge (s + a) b with h | h
  · rw [carryIn, Nat.div_eq_of_lt h, Nat.mod_eq_of_lt h, digitOf_of_lt h, Nat.zero_add]
  · have hdiv : (s + a) / b = 1 := Nat.div_eq_of_lt_le (by omega) (by omega)
    have hmod : (s + a) % b = s + a - b := by
      rw [Nat.mod_eq_sub_mod h, Nat.mod_eq_of_lt (by omega)]
    have hmod' : (s + a - 1) % (b - 1) = s + a - b := by
      rw [Nat.mod_eq_sub_mod (by omega), Nat.mod_eq_of_lt (by omega)]
      omega
    rw [carryIn, hdiv, hmod, digitOf, if_neg (by omega), hmod']
    omega

theorem foldl_carryIn {s : Nat} {l : List Nat} (hb : 2 ≤ b) (hs : s < b) (hl : ∀ a ∈ l, a < b) :
    l.foldl (fun s a => carryIn b (s + a)) s = digitOf b (s + l.sum) := by
  induction l generalizing s with
  | nil => exact (digitOf_of_lt hs).symm
  | cons a l ih =>
      rw [List.foldl_cons, carryIn_add hs (hl a List.mem_cons_self),
        ih (digitOf_lt hb _) fun c hc => hl c (List.mem_cons_of_mem _ hc), digitOf_digitOf_add,
        List.sum_cons, Nat.add_assoc]

/-- What a sum is. -/
theorem sum_eq {l : List Nat} (hb : 2 ≤ b) (hl : ∀ a ∈ l, a < b) : sum b l = digitOf b l.sum := by
  rw [sum, foldl_carryIn hb (by omega) hl, Nat.zero_add]

theorem subBorrow_lt {p a : Nat} (hp : p < b) : subBorrow b p a < b := by
  rw [subBorrow]
  split <;> omega

theorem subBorrow_mod {p a : Nat} (ha : a < b) :
    (subBorrow b p a + a) % (b - 1) = p % (b - 1) := by
  rw [subBorrow]
  split
  · rw [Nat.sub_add_cancel (by omega), Nat.add_mod_right]
  · next h => rw [Nat.sub_add_cancel (Nat.le_of_not_lt h)]

/-- A value that is no multiple of `b - 1` has one digit only. -/
theorem eq_mod_of_mod_eq {p t : Nat} (hp : p < b) (ht : t % (b - 1) ≠ 0)
    (h : p % (b - 1) = t % (b - 1)) : p = t % (b - 1) := by
  rcases Nat.lt_or_ge p (b - 1) with hlt | hge
  · rwa [Nat.mod_eq_of_lt hlt] at h
  · have hp : p = b - 1 := by omega
    rw [hp, Nat.mod_self] at h
    exact absurd h.symm ht

theorem digitOf_eq_mod {t : Nat} (ht : t % (b - 1) ≠ 0) (hb : 2 ≤ b) :
    digitOf b t = t % (b - 1) := eq_mod_of_mod_eq (digitOf_lt hb t) ht (digitOf_mod t)

/-- Two digits are added to a sum and taken away again. -/
theorem subBorrow_subBorrow_mod {p t c d : Nat} (hc : c < b) (hd : d < b)
    (hp : p % (b - 1) = (t + c + d) % (b - 1)) :
    subBorrow b (subBorrow b p c) d % (b - 1) = t % (b - 1) := by
  have hfirst := subBorrow_mod (p := subBorrow b p c) hd
  have hsecond := subBorrow_mod (p := p) hc
  have htotal : subBorrow b (subBorrow b p c) d + (c + d) ≡ t + (c + d) [MOD b - 1] :=
    calc subBorrow b (subBorrow b p c) d + (c + d)
        = subBorrow b (subBorrow b p c) d + d + c := by omega
      _ ≡ subBorrow b p c + c [MOD b - 1] := Nat.ModEq.add_right c hfirst
      _ ≡ p [MOD b - 1] := hsecond
      _ ≡ t + c + d [MOD b - 1] := hp
      _ = t + (c + d) := by omega
  exact Nat.ModEq.add_right_cancel' (c + d) htotal

end EndAround
