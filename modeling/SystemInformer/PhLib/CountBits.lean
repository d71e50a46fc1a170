import SystemInformer.Base.Words
import SystemInformer.Lib.Lanes

/-!
# Counting bits (`PhCountBits`, `PhCountBitsUlongPtr`)

Both functions count with the processor's instruction if there is one, and otherwise add up
neighbouring bits, pairs and halves of bytes in parallel. The masks for that are written with a
macro `T` for the type of the value; it is `ULONG` in both functions.

The 32 bits are four lanes of a byte. The first two steps work on each byte by itself, since the
masks take away what is shifted in from the next one, and the third adds the two halves of each
byte. What is in a byte then is the number of its bits (`byte_spec`), and multiplying by a word
of ones adds the four bytes in the highest one (`countBitsParallel_eq`).

A value of 64 bits is counted with masks of 32. No step brings a bit of the upper half into the
lower one, and the result is taken from the lower half, so the upper half is not counted
(`countBitsParallel_setWidth`).
-/

namespace SystemInformer.PhLib

/-- `PhPopulationCount32` and `PhPopulationCount64`. -/
def phPopulationCount {w : Nat} (value : BitVec w) : ULong :=
  BitVec.ofNat 32 ((List.range w).countP value.getLsbD)

/-- `(T)~(T)0`. -/
def allOnes : ULong := ~~~0

/-- The branch without the instruction. -/
def countBitsParallel {w : Nat} (value : BitVec w) : ULong :=
  let value := value - ((value >>> 1) &&& (allOnes / 3).setWidth w)
  let value := (value &&& (allOnes / 15 * 3).setWidth w) +
    ((value >>> 2) &&& (allOnes / 15 * 3).setWidth w)
  let value := (value + (value >>> 4)) &&& (allOnes / 255 * 15).setWidth w
  (value * (allOnes / 255).setWidth w).setWidth 32 >>> ((4 - 1) * 8)

def phCountBits (phHasPopulationCount : Bool) (value : ULong) : ULong :=
  if phHasPopulationCount then phPopulationCount value else countBitsParallel value

/-- `PhCountBitsUlongPtr` on 64 bits. -/
def phCountBitsUlongPtr (phHasPopulationCount : Bool) (value : ULongPtr) : ULong :=
  if phHasPopulationCount then phPopulationCount value else countBitsParallel value

open Lanes

/-! ## The three steps on a byte -/

def countPairs (b : Nat) : Nat := b - ((b >>> 1) &&& 0x55)

def countHalves (b : Nat) : Nat := (b &&& 0x33) + ((b >>> 2) &&& 0x33)

def countByte (b : Nat) : Nat := b % 2 ^ 4 + b / 2 ^ 4

/-- The steps stay inside of the byte, and the last one has the number of its bits. -/
theorem byte_spec : ∀ b < 2 ^ 8,
    (b >>> 1) &&& 0x55 ≤ b ∧ countPairs b < 2 ^ 8 ∧
    countHalves (countPairs b) % 2 ^ 4 ≤ 4 ∧ countHalves (countPairs b) / 2 ^ 4 ≤ 4 ∧
    countByte (countHalves (countPairs b)) = setBits 8 b ∧ setBits 8 b ≤ 8 := by
  decide +kernel

theorem masks {n : Nat} (hn : n = 4) :
    (allOnes / 3).toNat = word 8 (List.replicate n 0x55) ∧
    (allOnes / 15 * 3).toNat = word 8 (List.replicate n 0x33) ∧
    (allOnes / 255 * 15).toNat = word 8 (List.replicate n (2 ^ 4 - 1)) := by
  subst hn
  decide

variable {lanes : List Nat}

structure IsLanes (value : ULong) (lanes : List Nat) : Prop where
  length_eq : lanes.length = 4
  lt : ∀ b ∈ lanes, b < 2 ^ 8
  toNat_eq : value.toNat = word 8 lanes

variable {value : ULong}

theorem IsLanes.step {f : Nat → Nat} {next : ULong} (h : IsLanes value lanes)
    (hlt : ∀ b ∈ lanes, f b < 2 ^ 8)
    (hnext : next.toNat % 2 ^ 32 = word 8 (lanes.map f) % 2 ^ 32) :
    IsLanes next (lanes.map f) := by
  have hmap : ∀ b ∈ lanes.map f, b < 2 ^ 8 := by
    intro b hb
    obtain ⟨a, ha, rfl⟩ := List.mem_map.mp hb
    exact hlt a ha
  have hlength : (lanes.map f).length = 4 := by rw [List.length_map, h.length_eq]
  have hword := word_lt hmap
  rw [hlength] at hword
  rw [Nat.mod_eq_of_lt next.isLt, Nat.mod_eq_of_lt hword] at hnext
  exact ⟨hlength, hmap, hnext⟩

theorem IsLanes.pairs (h : IsLanes value lanes) :
    IsLanes (value - ((value >>> 1) &&& (allOnes / 3 : ULong))) (lanes.map countPairs) := by
  obtain ⟨hmask, -⟩ := masks h.length_eq
  have hle := fun b hb => (byte_spec b (h.lt b hb)).1
  have hshift : ((value >>> 1) &&& (allOnes / 3 : ULong)).toNat =
      word 8 (lanes.map fun b => (b >>> 1) &&& 0x55) := by
    rw [BitVec.toNat_and, BitVec.toNat_ushiftRight, hmask, h.toNat_eq,
      shift_and (by decide) h.lt]
  have hword := word_le_word (w := 8) (g := id) hle
  rw [List.map_id, ← hshift, ← h.toNat_eq] at hword
  refine h.step (fun b hb => (byte_spec b (h.lt b hb)).2.1) ?_
  rw [BitVec.toNat_sub_of_le hword, hshift, h.toNat_eq, word_sub hle]
  rfl

theorem IsLanes.halves (h : IsLanes value lanes) (hlt : ∀ b ∈ lanes, countHalves b < 2 ^ 8) :
    IsLanes ((value &&& (allOnes / 15 * 3 : ULong)) +
      ((value >>> 2) &&& (allOnes / 15 * 3 : ULong))) (lanes.map countHalves) := by
  obtain ⟨-, hmask, -⟩ := masks h.length_eq
  refine h.step hlt ?_
  rw [BitVec.toNat_add, Nat.mod_mod, BitVec.toNat_and, BitVec.toNat_and,
    BitVec.toNat_ushiftRight, hmask, h.toNat_eq, and_replicate (by decide) h.lt,
    shift_and (by decide) h.lt, word_add]
  rfl

theorem IsLanes.bytes (h : IsLanes value lanes)
    (hhalf : ∀ b ∈ lanes, b % 2 ^ 4 ≤ 4 ∧ b / 2 ^ 4 ≤ 4) :
    IsLanes ((value + (value >>> 4)) &&& (allOnes / 255 * 15 : ULong))
      (lanes.map countByte) := by
  obtain ⟨-, -, hmask⟩ := masks h.length_eq
  have hlt : ∀ b ∈ lanes, countByte b < 2 ^ 8 := by
    intro b hb
    have := hhalf b hb
    rw [countByte]
    omega
  -- The sum of the halves does not wrap around.
  have hword : word 8 lanes ≤ 0x44444444 := by
    have hle : word 8 (lanes.map id) ≤ word 8 (lanes.map fun _ => 0x44) :=
      word_le_word fun b hb => by have := hhalf b hb; show b ≤ 68; omega
    rw [List.map_id, List.map_const', h.length_eq] at hle
    exact hle
  have hsum : word 8 lanes + word 8 lanes >>> 4 < 2 ^ 32 := by
    rw [Nat.shiftRight_eq_div_pow]
    omega
  have hadd := add_halves (h := 4) (by decide) hhalf
  refine h.step hlt ?_
  rw [BitVec.toNat_and, BitVec.toNat_add, BitVec.toNat_ushiftRight, hmask, h.toNat_eq,
    Nat.mod_eq_of_lt hsum, hadd]
  rfl

/-- A word of ones adds up the bytes. -/
theorem sum_step {a b c d : Nat} (h : a + b + c + d < 256) :
    word 8 [a, b, c, d] * 0x01010101 % 2 ^ 32 / 2 ^ 24 = a + b + c + d := by
  -- What is above the highest byte, and what is below it.
  have hsplit : word 8 [a, b, c, d] * 0x01010101 =
      2 ^ 32 * (b + c + d + 2 ^ 8 * (c + d) + 2 ^ 16 * d) +
        (2 ^ 24 * (a + b + c + d) + (2 ^ 16 * (a + b + c) + 2 ^ 8 * (a + b) + a)) := by
    simp only [word_cons, word_nil]
    ring
  have hlow : 2 ^ 16 * (a + b + c) + 2 ^ 8 * (a + b) + a < 2 ^ 24 := by omega
  rw [hsplit, Nat.mul_add_mod, Nat.mod_eq_of_lt (by omega), Nat.mul_add_div (by decide),
    Nat.div_eq_of_lt hlow, Nat.add_zero]

/-- What is in the bytes after the three steps. -/
theorem IsLanes.counted (h : IsLanes value lanes) :
    ∃ next : ULong, countBitsParallel value = (next * (allOnes / 255)) >>> 24 ∧
      IsLanes next (lanes.map (setBits 8)) := by
  have hpairs : ∀ b ∈ lanes.map countPairs, countHalves b < 2 ^ 8 ∧
      countHalves b % 2 ^ 4 ≤ 4 ∧ countHalves b / 2 ^ 4 ≤ 4 := by
    intro b hb
    obtain ⟨a, ha, rfl⟩ := List.mem_map.mp hb
    obtain ⟨-, -, hlow, hhigh, -⟩ := byte_spec a (h.lt a ha)
    exact ⟨by omega, hlow, hhigh⟩
  have hcounted := (h.pairs.halves fun b hb => (hpairs b hb).1).bytes fun b hb => by
    obtain ⟨a, ha, rfl⟩ := List.mem_map.mp hb
    exact (hpairs a ha).2
  have hmap : ((lanes.map countPairs).map countHalves).map countByte =
      lanes.map (setBits 8) := by
    rw [List.map_map, List.map_map]
    exact List.map_congr_left fun b hb => (byte_spec b (h.lt b hb)).2.2.2.2.1
  rw [hmap] at hcounted
  refine ⟨_, ?_, hcounted⟩
  simp only [countBitsParallel, BitVec.setWidth_eq]

theorem phPopulationCount_toNat {w : Nat} (hw : w ≤ 64) (v : BitVec w) :
    (phPopulationCount v).toNat = setBits w v.toNat := by
  have hle : setBits w v.toNat ≤ w := List.countP_le_length.trans_eq List.length_range
  rw [phPopulationCount, BitVec.toNat_ofNat]
  exact Nat.mod_eq_of_lt (show setBits w v.toNat < _ by omega)

/-- The parallel count of 32 bits. -/
theorem countBitsParallel_eq (value : ULong) :
    countBitsParallel value = phPopulationCount value := by
  have h : IsLanes value (split 8 4 value.toNat) :=
    ⟨length_split 4 _, fun _ => lt_of_mem_split, (word_split value.isLt).symm⟩
  have hbits := setBits_word h.lt
  rw [h.length_eq, word_split value.isLt] at hbits
  have hle : ∀ b ∈ split 8 4 value.toNat, setBits 8 b ≤ 8 := fun b hb =>
    (byte_spec b (h.lt b hb)).2.2.2.2.2
  obtain ⟨next, heq, hnext⟩ := h.counted
  have hword := hnext.toNat_eq
  -- Four bytes, each with at most eight bits.
  simp only [split, List.map_cons, List.map_nil, List.sum_cons, List.sum_nil, Nat.add_zero,
    List.forall_mem_cons] at hbits hle hword
  obtain ⟨ha, hb, hc, hd, -⟩ := hle
  apply BitVec.eq_of_toNat_eq
  rw [heq, phPopulationCount_toNat (by decide), hbits, BitVec.toNat_ushiftRight,
    BitVec.toNat_mul, show (allOnes / 255).toNat = 0x01010101 by decide,
    Nat.shiftRight_eq_div_pow, hword, sum_step (by omega)]
  omega

/-! ## 64 bits -/

/-- A shifted value under a mask that takes away what comes from the upper half. -/
theorem setWidth_shift_and {mask : ULong} {s : Nat} (hmask : mask.toNat < 2 ^ (32 - s))
    (value : ULongPtr) :
    ((value >>> s) &&& mask.setWidth 64).setWidth 32 = (value.setWidth 32 >>> s) &&& mask := by
  apply BitVec.eq_of_getLsbD_eq
  intro i hi
  rw [BitVec.getLsbD_setWidth, BitVec.getLsbD_and, BitVec.getLsbD_and, BitVec.getLsbD_setWidth,
    BitVec.getLsbD_ushiftRight, BitVec.getLsbD_ushiftRight, BitVec.getLsbD_setWidth,
    decide_eq_true hi, decide_eq_true (show i < 64 by omega), Bool.true_and, Bool.true_and]
  by_cases hlow : s + i < 32
  · rw [decide_eq_true hlow, Bool.true_and]
  · have hbit : mask.getLsbD i = false :=
      Nat.testBit_eq_false_of_lt
        (hmask.trans_le (Nat.pow_le_pow_right Nat.two_pos (by omega)))
    rw [hbit, Bool.and_false, Bool.and_false]

theorem setWidth_and_mask (mask : ULong) (value : ULongPtr) :
    (value &&& mask.setWidth 64).setWidth 32 = value.setWidth 32 &&& mask := by
  rw [BitVec.setWidth_and, BitVec.setWidth_setWidth_of_le _ (by decide), BitVec.setWidth_eq]

theorem setWidth_sub (x y : ULongPtr) :
    (x - y).setWidth 32 = x.setWidth 32 - y.setWidth 32 := by
  rw [BitVec.sub_eq_add_neg, BitVec.setWidth_add _ _ (by decide),
    BitVec.setWidth_neg_of_le (by decide), BitVec.sub_eq_add_neg]

theorem toNat_and_mask_le (mask : ULong) (value : ULongPtr) :
    (value &&& mask.setWidth 64).toNat ≤ mask.toNat := by
  rw [BitVec.toNat_and, BitVec.toNat_setWidth]
  exact Nat.and_le_right.trans (Nat.mod_le _ _)

theorem setWidth_shift {value : ULongPtr} (hlt : value.toNat < 2 ^ 32) (s : Nat) :
    (value >>> s).setWidth 32 = value.setWidth 32 >>> s := by
  apply BitVec.eq_of_toNat_eq
  rw [BitVec.toNat_setWidth, BitVec.toNat_ushiftRight, BitVec.toNat_ushiftRight,
    BitVec.toNat_setWidth, Nat.mod_eq_of_lt hlt, Nat.mod_eq_of_lt]
  exact (Nat.shiftRight_le _ _).trans_lt hlt

/-- Only the lower half of a value is counted. -/
theorem countBitsParallel_setWidth (value : ULongPtr) :
    countBitsParallel value = countBitsParallel (value.setWidth 32) := by
  have hpairs : ∀ v : ULongPtr,
      (v - ((v >>> 1) &&& (allOnes / 3).setWidth 64)).setWidth 32 =
        v.setWidth 32 - ((v.setWidth 32 >>> 1) &&& (allOnes / 3 : ULong)) := by
    intro v
    rw [setWidth_sub, setWidth_shift_and (by decide)]
  have hhalves : ∀ v : ULongPtr,
      ((v &&& (allOnes / 15 * 3).setWidth 64) +
          ((v >>> 2) &&& (allOnes / 15 * 3).setWidth 64)).setWidth 32 =
        (v.setWidth 32 &&& (allOnes / 15 * 3 : ULong)) +
          ((v.setWidth 32 >>> 2) &&& (allOnes / 15 * 3 : ULong)) := by
    intro v
    rw [BitVec.setWidth_add _ _ (by decide), setWidth_and_mask, setWidth_shift_and (by decide)]
  -- After the second step the upper half is empty.
  have hlt : ∀ v : ULongPtr,
      ((v &&& (allOnes / 15 * 3).setWidth 64) +
          ((v >>> 2) &&& (allOnes / 15 * 3).setWidth 64)).toNat < 2 ^ 32 := by
    intro v
    have hle := toNat_and_mask_le (allOnes / 15 * 3) v
    have hle' := toNat_and_mask_le (allOnes / 15 * 3) (v >>> 2)
    have hmask : (allOnes / 15 * 3).toNat = 0x33333333 := by decide
    rw [BitVec.toNat_add]
    exact (Nat.mod_le _ _).trans_lt (by omega)
  have hbytes : ∀ v : ULongPtr, v.toNat < 2 ^ 32 →
      ((v + (v >>> 4)) &&& (allOnes / 255 * 15).setWidth 64).setWidth 32 =
        (v.setWidth 32 + (v.setWidth 32 >>> 4)) &&& (allOnes / 255 * 15 : ULong) := by
    intro v hv
    rw [setWidth_and_mask, BitVec.setWidth_add _ _ (by decide), setWidth_shift hv]
  have hsum : ∀ v : ULongPtr,
      (v * (allOnes / 255).setWidth 64).setWidth 32 = v.setWidth 32 * (allOnes / 255) := by
    intro v
    rw [BitVec.setWidth_mul _ _ (by decide), BitVec.setWidth_setWidth_of_le _ (by decide),
      BitVec.setWidth_eq]
  simp only [countBitsParallel, BitVec.setWidth_eq]
  rw [hsum, hbytes _ (hlt _), hhalves, hpairs]

theorem setBits_upper (value : ULongPtr) :
    setBits 64 value.toNat =
      setBits 32 (value.setWidth 32).toNat + setBits 32 (value.toNat / 2 ^ 32) := by
  rw [BitVec.toNat_setWidth]
  exact setBits_add 32 32 _

/-- The fallback counts the bits of every `ULONG`, and those of a pointer-sized value if they are
those of a `ULONG`. -/
theorem countBits_fallback_iff (value : ULongPtr) :
    ((∀ value : ULong, phCountBits false value = phPopulationCount value) ∧
      phCountBitsUlongPtr false value = phPopulationCount value) ↔ value.toNat < 2 ^ 32 := by
  have hlow := phPopulationCount_toNat (by decide) (value.setWidth 32)
  have hwhole := phPopulationCount_toNat (by decide) value
  have hsplit := setBits_upper value
  have hfallback : phCountBitsUlongPtr false value = phPopulationCount (value.setWidth 32) :=
    (countBitsParallel_setWidth value).trans (countBitsParallel_eq _)
  rw [hfallback]
  constructor
  · rintro ⟨-, h⟩
    rw [h, hwhole, hsplit] at hlow
    have hlt := value.isLt
    have hzero := setBits_eq_zero (n := 32) (v := value.toNat / 2 ^ 32) (by omega) (by omega)
    omega
  · intro hlt
    refine ⟨countBitsParallel_eq, BitVec.eq_of_toNat_eq ?_⟩
    rw [hlow, hwhole, hsplit, Nat.div_eq_of_lt hlt, setBits_zero, Nat.add_zero]

/-- One bit in the upper half. -/
theorem countBits_fallback_upper :
    ¬ ∀ value : ULongPtr, phCountBitsUlongPtr false value = phPopulationCount value := by
  intro h
  exact absurd (h (2 ^ 32)) (by decide)

end SystemInformer.PhLib
