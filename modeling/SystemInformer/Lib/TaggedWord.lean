import Mathlib

/-!
# Words with tag bits

A pointer that is aligned leaves the low bits of its word free for a tag. The tag is the
word modulo a power of two and the pointer is the rest; adding to the tag and taking from
it leaves the pointer alone as long as the tag stays in its bits.
-/

namespace TaggedWord

variable {n : Nat}

/-- The tag of a word, and the pointer. -/
def tag (k : Nat) (w : BitVec n) : Nat := w.toNat % 2 ^ k

def pointer (k : Nat) (w : BitVec n) : Nat := w.toNat - tag k w

theorem toNat_eq (k : Nat) (w : BitVec n) : w.toNat = pointer k w + tag k w := by
  have := Nat.mod_le w.toNat (2 ^ k)
  rw [pointer, tag]
  omega

theorem toNat_and_mask (k : Nat) (hk : k ≤ n) (w : BitVec n) :
    (w &&& BitVec.ofNat n (2 ^ k - 1)).toNat = tag k w := by
  have hlt : 2 ^ k - 1 < 2 ^ n := by
    have h₁ := Nat.two_pow_pos k
    have h₂ := Nat.pow_le_pow_right (n := 2) (by decide) hk
    omega
  rw [BitVec.toNat_and, BitVec.toNat_ofNat, Nat.mod_eq_of_lt hlt, Nat.and_two_pow_sub_one_eq_mod,
    tag]

/-- The bits under a mask and the others make up the word. -/
theorem toNat_and_add (w m : BitVec n) : (w &&& ~~~m).toNat + (w &&& m).toNat = w.toNat := by
  have hdisjoint : (w &&& ~~~m) &&& (w &&& m) = 0#n := by
    ext i hi
    simp only [BitVec.getElem_and, BitVec.getElem_not, BitVec.getElem_zero]
    cases w[i] <;> cases m[i] <;> rfl
  have hjoin : (w &&& ~~~m) ||| (w &&& m) = w := by
    ext i hi
    simp only [BitVec.getElem_or, BitVec.getElem_and, BitVec.getElem_not]
    cases w[i] <;> cases m[i] <;> rfl
  rw [← BitVec.toNat_add_of_and_eq_zero hdisjoint, BitVec.add_eq_or_of_and_eq_zero _ _ hdisjoint,
    hjoin]

theorem toNat_and_not_mask (k : Nat) (hk : k ≤ n) (w : BitVec n) :
    (w &&& ~~~BitVec.ofNat n (2 ^ k - 1)).toNat = pointer k w := by
  have hsum := toNat_and_add w (BitVec.ofNat n (2 ^ k - 1))
  rw [toNat_and_mask k hk] at hsum
  have := toNat_eq k w
  omega

theorem toNat_or_of_and_eq_zero {w m : BitVec n} (h : w &&& m = 0#n) :
    (w ||| m).toNat = w.toNat + m.toNat := by
  rw [← BitVec.add_eq_or_of_and_eq_zero _ _ h, BitVec.toNat_add_of_and_eq_zero h]

/-- Putting bits into a word. -/
theorem toNat_or (w m : BitVec n) : (w ||| m).toNat = (w &&& ~~~m).toNat + m.toNat := by
  have hclear : w ||| m = (w &&& ~~~m) ||| m := by
    ext i hi
    simp only [BitVec.getElem_and, BitVec.getElem_not, BitVec.getElem_or]
    cases w[i] <;> cases m[i] <;> rfl
  rw [hclear]
  refine toNat_or_of_and_eq_zero ?_
  ext i hi
  simp only [BitVec.getElem_and, BitVec.getElem_not, BitVec.getElem_zero]
  cases w[i] <;> cases m[i] <;> rfl

end TaggedWord
