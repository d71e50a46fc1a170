import Mathlib

/-!
# Bitmaps in word memory

A bitmap is a run of 32-bit words; bit `j` of it is bit `j % 32` of word
`j / 32`. Setting or clearing a range of bits is a store to the words, and what
it does to the bits is said once, by `bitAt_writeBits`: everything else about
allocation from a bitmap is about functions from indices to bits.
-/

namespace Bitmap

def writeRange (bits : Nat → Bool) (start n : Nat) (v : Bool) (j : Nat) : Bool :=
  if start ≤ j ∧ j < start + n then v else bits j

theorem writeRange_inside {bits : Nat → Bool} {start n j : Nat} {v : Bool}
    (h : start ≤ j ∧ j < start + n) : writeRange bits start n v j = v := if_pos h

theorem writeRange_outside {bits : Nat → Bool} {start n j : Nat} {v : Bool}
    (h : ¬ (start ≤ j ∧ j < start + n)) : writeRange bits start n v j = bits j := if_neg h

/-- A run of `n` clear bits below `size`. -/
def ClearRun (bits : Nat → Bool) (size start n : Nat) : Prop :=
  start + n ≤ size ∧ ∀ j, start ≤ j → j < start + n → bits j = false

instance (bits : Nat → Bool) (size start n : Nat) : Decidable (ClearRun bits size start n) :=
  decidable_of_iff (start + n ≤ size ∧ ∀ k, k < n → bits (start + k) = false) <| by
    refine and_congr_right fun _ => ⟨fun h j h₁ h₂ => ?_, fun h k hk => h _ (by omega) (by omega)⟩
    have hj := h (j - start) (by omega)
    rwa [show start + (j - start) = j by omega] at hj

/-- The number of clear bits below `size`. -/
def clearCount (bits : Nat → Bool) (size : Nat) : Nat :=
  ((Finset.range size).filter fun j => bits j = false).card

theorem clearCount_congr {bits bits' : Nat → Bool} {size : Nat}
    (heq : ∀ j, j < size → bits' j = bits j) : clearCount bits' size = clearCount bits size := by
  unfold clearCount
  congr 1
  refine Finset.filter_congr fun j hj => ?_
  rw [heq j (Finset.mem_range.mp hj)]

theorem clearCount_of_clear {bits : Nat → Bool} {size : Nat}
    (h : ∀ j, j < size → bits j = false) : clearCount bits size = size := by
  unfold clearCount
  rw [Finset.filter_true_of_mem fun j hj => h j (Finset.mem_range.mp hj), Finset.card_range]

theorem range_card {start n size : Nat} (h : start + n ≤ size) :
    ((Finset.range size).filter fun j => start ≤ j ∧ j < start + n).card = n := by
  have heq : ((Finset.range size).filter fun j => start ≤ j ∧ j < start + n) =
      Finset.Ico start (start + n) := by
    ext j
    simp only [Finset.mem_filter, Finset.mem_range, Finset.mem_Ico]
    omega
  rw [heq, Nat.card_Ico]
  omega

/-- Setting a clear run uses up as many clear bits as it is long. -/
theorem clearCount_set {bits : Nat → Bool} {size start n : Nat}
    (h : ClearRun bits size start n) :
    clearCount (writeRange bits start n true) size + n = clearCount bits size := by
  obtain ⟨hsize, hclear⟩ := h
  have hsplit : ((Finset.range size).filter fun j => bits j = false) =
      ((Finset.range size).filter fun j => writeRange bits start n true j = false) ∪
        (Finset.range size).filter fun j => start ≤ j ∧ j < start + n := by
    ext j
    rw [Finset.mem_union, Finset.mem_filter, Finset.mem_filter, Finset.mem_filter]
    constructor
    · intro h
      by_cases hj : start ≤ j ∧ j < start + n
      · exact Or.inr ⟨h.1, hj⟩
      · exact Or.inl ⟨h.1, (writeRange_outside hj).trans h.2⟩
    · intro h
      rcases h with ⟨hsize, h⟩ | ⟨hsize, hj⟩
      · refine ⟨hsize, ?_⟩
        by_cases hj : start ≤ j ∧ j < start + n
        · exact hclear j hj.1 hj.2
        · exact (writeRange_outside hj).symm.trans h
      · exact ⟨hsize, hclear j hj.1 hj.2⟩
  have hdisj : Disjoint
      ((Finset.range size).filter fun j => writeRange bits start n true j = false)
      ((Finset.range size).filter fun j => start ≤ j ∧ j < start + n) := by
    rw [Finset.disjoint_filter]
    intro j _ hj hin
    rw [writeRange_inside hin] at hj
    cases hj
  rw [clearCount, clearCount, hsplit, Finset.card_union_of_disjoint hdisj, range_card hsize]

/-- Clearing a run of set bits gives them back. -/
theorem clearCount_clear {bits : Nat → Bool} {size start n : Nat} (hsize : start + n ≤ size)
    (hset : ∀ j, start ≤ j → j < start + n → bits j = true) :
    clearCount (writeRange bits start n false) size = clearCount bits size + n := by
  have hrun : ClearRun (writeRange bits start n false) size start n := by
    exact ⟨hsize, fun j h₁ h₂ => writeRange_inside ⟨h₁, h₂⟩⟩
  have hback : writeRange (writeRange bits start n false) start n true = bits := by
    funext j
    unfold writeRange
    split
    · next hj => rw [hset j hj.1 hj.2]
    · rfl
  have hcount := clearCount_set hrun
  rw [hback] at hcount
  exact hcount.symm

/-- A run is no longer than the clear bits there are. -/
theorem ClearRun.le_clearCount {bits : Nat → Bool} {size start n : Nat}
    (h : ClearRun bits size start n) : n ≤ clearCount bits size := by
  have := clearCount_set h
  omega

/-! ## Words -/

/-- Bit `j` of the bitmap whose words start at `buffer`. -/
def bitAt (memory : Nat → Nat) (buffer j : Nat) : Bool :=
  (memory (buffer + 4 * (j / 32))).testBit (j % 32)

/-- A word with the bits of a range overwritten, the word being the `w`-th. -/
def writeWord (old w start n : Nat) (v : Bool) : Nat :=
  Nat.ofBits fun k : Fin 32 =>
    if start ≤ 32 * w + k ∧ 32 * w + k < start + n then v else old.testBit k

/-- The memory with a range of bits of a bitmap of `words` words overwritten. -/
def writeBits (memory : Nat → Nat) (buffer words start n : Nat) (v : Bool) (a : Nat) : Nat :=
  if buffer ≤ a ∧ a < buffer + 4 * words ∧ (a - buffer) % 4 = 0 then
    writeWord (memory a) ((a - buffer) / 4) start n v
  else memory a

theorem bitAt_writeBits {memory : Nat → Nat} {buffer words start n j : Nat} {v : Bool}
    (hj : j < 32 * words) :
    bitAt (writeBits memory buffer words start n v) buffer j =
      writeRange (bitAt memory buffer) start n v j := by
  have hword : buffer ≤ buffer + 4 * (j / 32) ∧
      buffer + 4 * (j / 32) < buffer + 4 * words ∧
      (buffer + 4 * (j / 32) - buffer) % 4 = 0 := by omega
  have hindex : (buffer + 4 * (j / 32) - buffer) / 4 = j / 32 := by omega
  have hbit : 32 * (j / 32) + j % 32 = j := by omega
  rw [bitAt, writeBits, if_pos hword, hindex, writeWord,
    Nat.testBit_ofBits_lt _ _ (Nat.mod_lt j (by decide)), writeRange]
  simp only [hbit]
  rfl

theorem writeBits_of_outside {memory : Nat → Nat} {buffer words start n a : Nat} {v : Bool}
    (h : a < buffer ∨ buffer + 4 * words ≤ a) :
    writeBits memory buffer words start n v a = memory a := by
  rw [writeBits, if_neg (by omega)]

theorem bitAt_congr {memory memory' : Nat → Nat} {buffer words j : Nat} (hj : j < 32 * words)
    (h : ∀ w, w < words → memory' (buffer + 4 * w) = memory (buffer + 4 * w)) :
    bitAt memory' buffer j = bitAt memory buffer j := by
  rw [bitAt, bitAt, h (j / 32) (by omega)]

end Bitmap
