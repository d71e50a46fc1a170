import Mathlib

/-!
# Words made of lanes

A word can be taken for a list of lanes of `w` bits, the lowest one first: its digits in base
`2 ^ w`. Shifting it and masking every lane, and adding or subtracting words, works on each lane
by itself as long as nothing crosses from one lane into another, which is what the lemmas ask for.
The bits of a word are the bits of its lanes, so they are counted lane by lane.
-/

namespace Lanes

variable {w h m s v : Nat} {lanes : List Nat}

def word (w : Nat) (lanes : List Nat) : Nat := Nat.ofDigits (2 ^ w) lanes

@[simp] theorem word_nil : word w [] = 0 := rfl

theorem word_cons (l : Nat) (lanes : List Nat) :
    word w (l :: lanes) = 2 ^ w * word w lanes + l := by
  rw [word, word, Nat.ofDigits_cons, Nat.add_comm]

/-- The lowest `n` lanes of a word. -/
def split (w : Nat) : Nat → Nat → List Nat
  | 0, _ => []
  | n + 1, v => v % 2 ^ w :: split w n (v / 2 ^ w)

theorem length_split (n v : Nat) : (split w n v).length = n := by
  induction n generalizing v with
  | zero => rfl
  | succ n ih => rw [split, List.length_cons, ih]

theorem lt_of_mem_split {n v l : Nat} (hl : l ∈ split w n v) : l < 2 ^ w := by
  induction n generalizing v with
  | zero => exact nomatch hl
  | succ n ih =>
      rcases List.mem_cons.mp hl with rfl | hl
      · exact Nat.mod_lt _ (Nat.two_pow_pos w)
      · exact ih hl

theorem word_split {n : Nat} (hv : v < 2 ^ (w * n)) : word w (split w n v) = v := by
  induction n generalizing v with
  | zero =>
      rw [Nat.mul_zero, Nat.pow_zero] at hv
      rw [split, word_nil]
      omega
  | succ n ih =>
      rw [Nat.mul_succ, Nat.add_comm, Nat.pow_add] at hv
      rw [split, word_cons, ih (Nat.div_lt_of_lt_mul hv), Nat.div_add_mod]

theorem word_lt (hlanes : ∀ l ∈ lanes, l < 2 ^ w) : word w lanes < 2 ^ (w * lanes.length) := by
  induction lanes with
  | nil => exact Nat.one_pos
  | cons l lanes ih =>
      obtain ⟨hl, hlanes⟩ := List.forall_mem_cons.mp hlanes
      rw [word_cons, List.length_cons, Nat.mul_succ, Nat.add_comm (w * _), Nat.pow_add]
      calc 2 ^ w * word w lanes + l
          < 2 ^ w * word w lanes + 2 ^ w := Nat.add_lt_add_left hl _
        _ = 2 ^ w * (word w lanes + 1) := (Nat.mul_succ _ _).symm
        _ ≤ 2 ^ w * 2 ^ (w * lanes.length) := Nat.mul_le_mul_left _ (ih hlanes)

/-- A shift by less than a lane, when the mask takes away what came from the next lane. -/
theorem shift_and (hm : m * 2 ^ s < 2 ^ w) (hlanes : ∀ l ∈ lanes, l < 2 ^ w) :
    (word w lanes >>> s) &&& word w (List.replicate lanes.length m) =
      word w (lanes.map fun l => (l >>> s) &&& m) := by
  have hmw : m < 2 ^ w := (Nat.le_mul_of_pos_right m (Nat.two_pow_pos s)).trans_lt hm
  induction lanes with
  | nil => rw [List.length_nil, List.replicate_zero, word_nil, Nat.and_zero, List.map_nil, word_nil]
  | cons l lanes ih =>
      obtain ⟨hl, hlanes⟩ := List.forall_mem_cons.mp hlanes
      have hmask : (l >>> s) &&& m < 2 ^ w := Nat.and_le_right.trans_lt hmw
      rw [List.length_cons, List.replicate_succ, List.map_cons, word_cons, word_cons, word_cons,
        ← ih hlanes]
      apply Nat.eq_of_testBit_eq
      intro j
      rw [Nat.testBit_and, Nat.testBit_shiftRight, Nat.testBit_two_pow_mul_add _ hl,
        Nat.testBit_two_pow_mul_add _ hmw, Nat.testBit_two_pow_mul_add _ hmask]
      by_cases hj : j < w
      · rw [if_pos hj, if_pos hj, Nat.testBit_and, Nat.testBit_shiftRight]
        by_cases hsj : s + j < w
        · rw [if_pos hsj]
        · -- The mask has no bit here.
          have hbit : m.testBit j = false := by
            apply Nat.testBit_eq_false_of_lt
            have hpow := Nat.pow_le_pow_right Nat.two_pos (show w ≤ j + s by omega)
            rw [Nat.pow_add] at hpow
            exact Nat.lt_of_mul_lt_mul_right (hm.trans_le hpow)
          rw [hbit, Bool.and_false, Bool.and_false]
      · rw [if_neg hj, if_neg hj, if_neg (by omega), Nat.testBit_and, Nat.testBit_shiftRight,
          show s + j - w = s + (j - w) by omega]

theorem and_replicate (hm : m < 2 ^ w) (hlanes : ∀ l ∈ lanes, l < 2 ^ w) :
    word w lanes &&& word w (List.replicate lanes.length m) =
      word w (lanes.map fun l => l &&& m) := by
  have h := shift_and (s := 0) (by rw [Nat.pow_zero, Nat.mul_one]; exact hm) hlanes
  simp only [Nat.shiftRight_zero] at h
  exact h

theorem word_le_word {f g : Nat → Nat} (h : ∀ l ∈ lanes, f l ≤ g l) :
    word w (lanes.map f) ≤ word w (lanes.map g) := by
  induction lanes with
  | nil => exact Nat.le_refl 0
  | cons l lanes ih =>
      obtain ⟨hl, hlanes⟩ := List.forall_mem_cons.mp h
      rw [List.map_cons, List.map_cons, word_cons, word_cons]
      exact Nat.add_le_add (Nat.mul_le_mul_left _ (ih hlanes)) hl

theorem word_add (f g : Nat → Nat) :
    word w (lanes.map f) + word w (lanes.map g) = word w (lanes.map fun l => f l + g l) := by
  induction lanes with
  | nil => rfl
  | cons l lanes ih =>
      simp only [List.map_cons, word_cons, ← ih, Nat.mul_add]
      omega

theorem word_sub {g : Nat → Nat} (h : ∀ l ∈ lanes, g l ≤ l) :
    word w lanes - word w (lanes.map g) = word w (lanes.map fun l => l - g l) := by
  induction lanes with
  | nil => rfl
  | cons l lanes ih =>
      obtain ⟨hl, hlanes⟩ := List.forall_mem_cons.mp h
      have hle := word_le_word (w := w) (g := id) hlanes
      rw [List.map_id] at hle
      rw [List.map_cons, List.map_cons, word_cons, word_cons, word_cons, ← ih hlanes,
        Nat.mul_sub]
      have := Nat.mul_le_mul_left (2 ^ w) hle
      omega

theorem and_cons {l l' : Nat} (hl : l < 2 ^ w) (hl' : l' < 2 ^ w) (v v' : Nat) :
    (2 ^ w * v + l) &&& (2 ^ w * v' + l') = 2 ^ w * (v &&& v') + (l &&& l') := by
  apply Nat.eq_of_testBit_eq
  intro j
  rw [Nat.testBit_and, Nat.testBit_two_pow_mul_add _ hl, Nat.testBit_two_pow_mul_add _ hl',
    Nat.testBit_two_pow_mul_add _ (Nat.and_le_left.trans_lt hl)]
  split
  · rw [Nat.testBit_and]
  · rw [Nat.testBit_and]

/-- The two halves of every lane are added, when the sums are halves again. -/
theorem add_halves {c : Nat} (hc : 2 * c < 2 ^ h)
    (hlanes : ∀ l ∈ lanes, l % 2 ^ h ≤ c ∧ l / 2 ^ h ≤ c) :
    (word (h + h) lanes + word (h + h) lanes >>> h) &&&
        word (h + h) (List.replicate lanes.length (2 ^ h - 1)) =
      word (h + h) (lanes.map fun l => l % 2 ^ h + l / 2 ^ h) := by
  have hsquare : 2 ^ (h + h) = 2 ^ h * 2 ^ h := Nat.pow_add 2 h h
  have hpos := Nat.two_pow_pos h
  induction lanes with
  | nil => rw [List.length_nil, List.replicate_zero, word_nil, Nat.and_zero, List.map_nil, word_nil]
  | cons l lanes ih =>
      obtain ⟨⟨hlow, hhigh⟩, hlanes⟩ := List.forall_mem_cons.mp hlanes
      -- The half that comes from the next lane is small as well.
      have hnext : word (h + h) lanes % 2 ^ h ≤ c := by
        cases lanes with
        | nil => rw [word_nil, Nat.zero_mod]; exact Nat.zero_le c
        | cons l' lanes =>
            rw [word_cons, hsquare, Nat.mul_assoc, Nat.mul_add_mod]
            exact (hlanes l' List.mem_cons_self).1
      rw [List.length_cons, List.replicate_succ, List.map_cons, word_cons, word_cons, word_cons,
        ← ih hlanes]
      generalize word (h + h) lanes = v at hnext ⊢
      generalize word (h + h) (List.replicate lanes.length (2 ^ h - 1)) = v'
      have hshift : (2 ^ (h + h) * v + l) >>> h = 2 ^ h * v + l / 2 ^ h := by
        rw [Nat.shiftRight_eq_div_pow, hsquare, Nat.mul_assoc, Nat.mul_add_div hpos]
      have hl := Nat.div_add_mod l (2 ^ h)
      have hv := Nat.div_add_mod v (2 ^ h)
      have hsum : 2 ^ (h + h) * v + l + (2 ^ (h + h) * v + l) >>> h =
          2 ^ (h + h) * (v + v >>> h) +
            (2 ^ h * (l / 2 ^ h + v % 2 ^ h) + (l % 2 ^ h + l / 2 ^ h)) := by
        rw [hshift, Nat.shiftRight_eq_div_pow, hsquare]
        calc 2 ^ h * 2 ^ h * v + l + (2 ^ h * v + l / 2 ^ h)
            = 2 ^ h * 2 ^ h * v + (2 ^ h * (l / 2 ^ h) + l % 2 ^ h) +
                (2 ^ h * (2 ^ h * (v / 2 ^ h) + v % 2 ^ h) + l / 2 ^ h) := by rw [hl, hv]
          _ = _ := by ring
      have hhalf : l % 2 ^ h + l / 2 ^ h < 2 ^ h := by omega
      have hlane : 2 ^ h * (l / 2 ^ h + v % 2 ^ h) + (l % 2 ^ h + l / 2 ^ h) < 2 ^ (h + h) := by
        rw [hsquare]
        calc 2 ^ h * (l / 2 ^ h + v % 2 ^ h) + (l % 2 ^ h + l / 2 ^ h)
            < 2 ^ h * (l / 2 ^ h + v % 2 ^ h) + 2 ^ h := Nat.add_lt_add_left hhalf _
          _ = 2 ^ h * (l / 2 ^ h + v % 2 ^ h + 1) := (Nat.mul_succ _ _).symm
          _ ≤ 2 ^ h * 2 ^ h := Nat.mul_le_mul_left _ (by omega)
      have hmask : 2 ^ h - 1 < 2 ^ (h + h) := by
        have := Nat.pow_le_pow_right Nat.two_pos (Nat.le_add_left h h)
        omega
      rw [hsum, and_cons hlane hmask, Nat.and_two_pow_sub_one_eq_mod, Nat.mul_add_mod,
        Nat.mod_eq_of_lt hhalf]

/-! ## Counting bits -/

/-- The number of bits that are set among the lowest `n`. -/
def setBits (n v : Nat) : Nat := (List.range n).countP v.testBit

theorem setBits_add (w n v : Nat) :
    setBits (w + n) v = setBits w (v % 2 ^ w) + setBits n (v / 2 ^ w) := by
  rw [setBits, List.range_add, List.countP_append, List.countP_map]
  congr 1
  · refine List.countP_congr fun j hj => ?_
    rw [Nat.testBit_mod_two_pow, decide_eq_true (List.mem_range.mp hj), Bool.true_and]
  · refine List.countP_congr fun j _ => ?_
    rw [Function.comp_apply, Nat.testBit_div_two_pow, Nat.add_comm]

theorem setBits_zero (n : Nat) : setBits n 0 = 0 := by
  rw [setBits, List.countP_eq_zero]
  intro j _
  rw [Nat.zero_testBit]
  exact Bool.false_ne_true

theorem setBits_eq_zero {n : Nat} (hv : v < 2 ^ n) (h : setBits n v = 0) : v = 0 := by
  rw [setBits, List.countP_eq_zero] at h
  apply Nat.eq_of_testBit_eq
  intro j
  rw [Nat.zero_testBit]
  rcases Nat.lt_or_ge j n with hj | hj
  · exact Bool.eq_false_iff.mpr (h j (List.mem_range.mpr hj))
  · exact Nat.testBit_eq_false_of_lt (hv.trans_le (Nat.pow_le_pow_right Nat.two_pos hj))

theorem setBits_word (hlanes : ∀ l ∈ lanes, l < 2 ^ w) :
    setBits (w * lanes.length) (word w lanes) = (lanes.map (setBits w)).sum := by
  induction lanes with
  | nil => rfl
  | cons l lanes ih =>
      obtain ⟨hl, hlanes⟩ := List.forall_mem_cons.mp hlanes
      rw [List.length_cons, Nat.mul_succ, Nat.add_comm, setBits_add, word_cons, Nat.mul_add_mod,
        Nat.mod_eq_of_lt hl, Nat.mul_add_div (Nat.two_pow_pos w), Nat.div_eq_of_lt hl,
        Nat.add_zero, ih hlanes, List.map_cons, List.sum_cons]

end Lanes
