import SystemInformer.Base.Words

/-!
# Rounding up to a power of two (`PhRoundUpToPowerOfTwo`)

The highest set bit of the number before is spread to all places below it, twice as far in each
step.
-/

namespace SystemInformer.PhLib

def phRoundUpToPowerOfTwo (number : ULong) : ULong :=
  let number := number - 1
  let number := number ||| number >>> 1
  let number := number ||| number >>> 2
  let number := number ||| number >>> 4
  let number := number ||| number >>> 8
  let number := number ||| number >>> 16
  number + 1

/-- Every set bit of `x` is spread to the `d` places from it down. -/
def Spread (x : ULong) (d : Nat) (y : ULong) : Prop :=
  ∀ i, y.getLsbD i = true ↔ ∃ j < d, x.getLsbD (i + j) = true

theorem Spread.double {x y : ULong} {d : Nat} (h : Spread x d y) :
    Spread x (d + d) (y ||| y >>> d) := by
  intro i
  rw [BitVec.getLsbD_or, BitVec.getLsbD_ushiftRight, Bool.or_eq_true, h i, h (d + i)]
  constructor
  · rintro (⟨j, hj, hx⟩ | ⟨j, hj, hx⟩)
    · exact ⟨j, by omega, hx⟩
    · exact ⟨d + j, by omega, by rwa [show i + (d + j) = d + i + j by omega]⟩
  · rintro ⟨j, hj, hx⟩
    by_cases hlow : j < d
    · exact Or.inl ⟨j, hlow, hx⟩
    · exact Or.inr ⟨j - d, by omega, by rwa [show d + i + (j - d) = i + j by omega]⟩

theorem Spread.one (x : ULong) : Spread x 1 x := by
  intro i
  constructor
  · exact fun hx => ⟨0, by omega, hx⟩
  · rintro ⟨j, hj, hx⟩
    rwa [show i + j = i by omega] at hx

/-- When the bits have been spread over the whole word, those below the highest one are set. -/
theorem Spread.toNat_eq {x y : ULong} (h : Spread x 32 y) :
    y.toNat = 2 ^ Nat.clog 2 (x.toNat + 1) - 1 := by
  refine Nat.eq_of_testBit_eq fun i => ?_
  rw [Bool.eq_iff_iff, Nat.testBit_two_pow_sub_one, decide_eq_true_iff,
    Nat.lt_clog_iff_pow_lt (by decide), BitVec.testBit_toNat, h i, Nat.lt_succ_iff]
  constructor
  · rintro ⟨j, -, hx⟩
    rw [← BitVec.testBit_toNat] at hx
    exact (Nat.pow_le_pow_right (by decide) (Nat.le_add_right i j)).trans
      (Nat.ge_two_pow_of_testBit hx)
  · intro hle
    obtain ⟨k, hk, hx⟩ := Nat.exists_ge_and_testBit_of_ge_two_pow hle
    have hlt : k < 32 := by
      by_contra hge
      exact absurd (Nat.ge_two_pow_of_testBit hx) (Nat.not_le.mpr
        (x.isLt.trans_le (Nat.pow_le_pow_right (by decide) (Nat.le_of_not_lt hge))))
    rw [BitVec.testBit_toNat] at hx
    exact ⟨k - i, by omega, by rwa [Nat.add_sub_cancel' hk]⟩

theorem toNat_phRoundUpToPowerOfTwo {number : ULong} (h : 0 < number.toNat)
    (hle : number.toNat ≤ 2 ^ 31) :
    (phRoundUpToPowerOfTwo number).toNat = 2 ^ Nat.clog 2 number.toNat := by
  have hspread := (((((Spread.one (number - 1)).double).double).double).double).double
  have hpred : (number - 1).toNat = number.toNat - 1 := by
    rw [BitVec.toNat_sub]
    have := number.isLt
    change (4294967296 - 1 + number.toNat) % 4294967296 = _
    omega
  have hpow : 2 ^ Nat.clog 2 number.toNat ≤ 2 ^ 31 :=
    Nat.pow_le_pow_right (by decide) (Nat.clog_le_of_le_pow hle)
  have hpos : 0 < 2 ^ Nat.clog 2 number.toNat := Nat.two_pow_pos _
  have hvalue := hspread.toNat_eq
  rw [hpred, Nat.sub_add_cancel h] at hvalue
  rw [phRoundUpToPowerOfTwo, BitVec.toNat_add]
  refine (congrArg (fun n => (n + 1) % 2 ^ 32) hvalue).trans ?_
  rw [Nat.sub_add_cancel hpos]
  exact Nat.mod_eq_of_lt (hpow.trans_lt (by decide))

end SystemInformer.PhLib
