import SystemInformer.Lib.TaggedWord

/-!
# Fields of words

A word that packs several numbers has each of them in a field, some bits from a position
on. The masks with which a field is tested, read and cleared are told by the numbers they
compute: the word divided by the weight of the field, modulo its range.
-/

namespace BitField

variable {n : Nat}

/-- The `w` bits of a word from bit `k` on. -/
def field (k w : Nat) (v : BitVec n) : Nat := v.toNat / 2 ^ k % 2 ^ w

theorem two_pow_sub_one_lt {w : Nat} (hw : w ≤ n) : 2 ^ w - 1 < 2 ^ n := by
  have := Nat.two_pow_pos w
  have := Nat.pow_le_pow_right (by decide : 0 < 2) hw
  omega

theorem toNat_shift_and {k w : Nat} (hw : w ≤ n) (v : BitVec n) :
    ((v >>> k) &&& BitVec.ofNat n (2 ^ w - 1)).toNat = field k w v := by
  rw [BitVec.toNat_and, BitVec.toNat_ushiftRight, BitVec.toNat_ofNat,
    Nat.mod_eq_of_lt (two_pow_sub_one_lt hw), Nat.and_two_pow_sub_one_eq_mod,
    Nat.shiftRight_eq_div_pow, field]

/-- The mask of a field, in its place. -/
def mask (n k w : Nat) : BitVec n := BitVec.ofNat n ((2 ^ w - 1) * 2 ^ k)

theorem toNat_mask {k w : Nat} (h : k + w ≤ n) : (mask n k w).toNat = (2 ^ w - 1) * 2 ^ k := by
  rw [mask, BitVec.toNat_ofNat, Nat.mod_eq_of_lt]
  have hone := Nat.two_pow_pos w
  have hpow := Nat.pow_le_pow_right (by decide : 0 < 2) h
  rw [Nat.add_comm, Nat.pow_add] at hpow
  have hlt : (2 ^ w - 1) * 2 ^ k < 2 ^ w * 2 ^ k :=
    Nat.mul_lt_mul_of_pos_right (by omega) (Nat.two_pow_pos k)
  omega

theorem toNat_and_mask {k w : Nat} (h : k + w ≤ n) (v : BitVec n) :
    (v &&& mask n k w).toNat = field k w v * 2 ^ k := by
  rw [BitVec.toNat_and, toNat_mask h, field, ← Nat.shiftRight_eq_div_pow,
    ← Nat.and_two_pow_sub_one_eq_mod, ← Nat.shiftLeft_eq, ← Nat.shiftLeft_eq,
    Nat.shiftLeft_and_distrib]
  refine Nat.eq_of_testBit_eq fun i => ?_
  simp only [Nat.testBit_and, Nat.testBit_shiftLeft, Nat.testBit_shiftRight]
  by_cases hi : k ≤ i
  · rw [Nat.add_sub_cancel' hi]
    simp [hi]
  · simp [hi]

theorem and_mask_eq_zero {k w : Nat} (h : k + w ≤ n) (v : BitVec n) :
    v &&& mask n k w = 0#n ↔ field k w v = 0 := by
  have hvalue := toNat_and_mask h v
  constructor
  · intro hzero
    rw [hzero] at hvalue
    rcases Nat.mul_eq_zero.mp hvalue.symm with hfield | hpow
    · exact hfield
    · exact absurd hpow (Nat.two_pow_pos k).ne'
  · intro hfield
    rw [hfield, Nat.zero_mul] at hvalue
    exact BitVec.eq_of_toNat_eq hvalue

theorem and_or_eq_zero (v a b : BitVec n) : v &&& (a ||| b) = 0#n ↔ v &&& a = 0#n ∧ v &&& b = 0#n := by
  rw [BitVec.and_or_distrib_left]
  exact BitVec.or_eq_zero_iff

theorem toNat_and_not_mask {k w : Nat} (h : k + w ≤ n) (v : BitVec n) :
    (v &&& ~~~mask n k w).toNat + field k w v * 2 ^ k = v.toNat := by
  rw [← toNat_and_mask h]
  exact TaggedWord.toNat_and_add v (mask n k w)

def get (k w : Nat) (v : BitVec n) : BitVec w := (v >>> k).setWidth w

theorem toNat_get {k w : Nat} (v : BitVec n) : (get k w v).toNat = field k w v := by
  rw [get, BitVec.toNat_setWidth, BitVec.toNat_ushiftRight, Nat.shiftRight_eq_div_pow, field]

theorem get_eq_zero {k w : Nat} (v : BitVec n) : get k w v = 0 ↔ field k w v = 0 := by
  rw [← toNat_get, ← BitVec.toNat_inj]
  exact Iff.rfl

def put {w : Nat} (k : Nat) (x : BitVec w) (v : BitVec n) : BitVec n :=
  (v &&& ~~~((BitVec.allOnes w).setWidth n <<< k)) ||| (x.setWidth n <<< k)

theorem getLsbD_get {k w i : Nat} (v : BitVec n) :
    (get k w v).getLsbD i = (decide (i < w) && v.getLsbD (k + i)) := by
  simp [get, BitVec.getLsbD_setWidth, BitVec.getLsbD_ushiftRight]

theorem getLsbD_put {k w i : Nat} (x : BitVec w) (v : BitVec n) (hi : i < n) :
    (put k x v).getLsbD i = if k ≤ i ∧ i < k + w then x.getLsbD (i - k) else v.getLsbD i := by
  simp only [put, BitVec.getLsbD_or, BitVec.getLsbD_and, BitVec.getLsbD_not, BitVec.getLsbD_shiftLeft,
    BitVec.getLsbD_setWidth, BitVec.getLsbD_allOnes]
  by_cases hk : k ≤ i
  · by_cases hw : i < k + w
    · have hlt : i - k < w := by omega
      have hlt' : i - k < n := by omega
      simp [hi, hlt, hlt', hk, hw, Nat.not_lt.mpr hk]
    · have hge : ¬i - k < w := by omega
      have hout : x.getLsbD (i - k) = false := BitVec.getLsbD_of_ge x (i - k) (Nat.le_of_not_lt hge)
      simp [hi, hge, hout, hk, hw]
  · have hlt : i < k := Nat.lt_of_not_le hk
    simp [hi, hlt, hk]

/-- A field that was put is read again. -/
theorem get_put {k w : Nat} (h : k + w ≤ n) (x : BitVec w) (v : BitVec n) :
    get k w (put k x v) = x := by
  refine BitVec.eq_of_getLsbD_eq fun i hi => ?_
  rw [getLsbD_get, getLsbD_put x v (by omega), if_pos ⟨Nat.le_add_right k i, by omega⟩,
    Nat.add_sub_cancel_left]
  simp [hi]

/-- A field that was put leaves the others. -/
theorem get_put_of_disjoint {k w k' w' : Nat} (h : k + w ≤ n) (x : BitVec w') (v : BitVec n)
    (hdisjoint : k + w ≤ k' ∨ k' + w' ≤ k) : get k w (put k' x v) = get k w v := by
  refine BitVec.eq_of_getLsbD_eq fun i hi => ?_
  rw [getLsbD_get, getLsbD_get, getLsbD_put x v (by omega), if_neg (by omega)]

end BitField
