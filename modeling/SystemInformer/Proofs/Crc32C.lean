import SystemInformer.PhLib.Crc32C

/-!
# Where the CRC-32C is right

Every pass of a loop looks at the beginning of the buffer and leaves there a number that is one
larger. So the buffer does not stay as it is, unless the passes add up to a multiple of what the
number can hold; and the last byte of an odd length is not looked at.
-/

namespace SystemInformer.PhLib

open Bytes

/-- The reflected CRC-32C with the polynomial `0x82F63B78`, inverted in and out. -/
def crc32C (crc : ULong) (bytes : List UInt8) : ULong :=
  bytes.foldl (fun crc byte => mmCrc32 8 crc byte.toNat) (crc ^^^ 0xffffffff) ^^^ 0xffffffff

/-- The remainder of the bytes, the buffer as it was, and the same for two parts one after the
other. -/
def CrcMeets (crc : ULong) (buffer : List UInt8) : Prop :=
  phCrc32C crc buffer = (crc32C crc buffer, buffer) ∧
    ∀ a b, buffer = a ++ b → (phCrc32C (phCrc32C crc a).1 b).1 = (phCrc32C crc buffer).1

theorem leDecode_take_leEncode {m n : Nat} (hle : m ≤ n) (v : Nat) :
    leDecode ((leEncode n v).take m) = v % 256 ^ m := by
  induction m generalizing n v with
  | zero => simp [leDecode, Nat.mod_one]
  | succ m ih =>
      obtain ⟨n, rfl⟩ : ∃ k, n = k + 1 := ⟨n - 1, by omega⟩
      rw [leEncode, List.take_succ_cons, leDecode, ih (Nat.le_of_succ_le_succ hle)]
      have hb : (UInt8.ofNat v).toNat = v % 256 := by simp
      rw [hb, pow_succ', Nat.mod_mul]

theorem leDecode_take_mod {m n : Nat} (hle : m ≤ n) (bytes : List UInt8) :
    leDecode (bytes.take n) % 256 ^ m = leDecode (bytes.take m) := by
  induction m generalizing n bytes with
  | zero => simp [leDecode, Nat.mod_one]
  | succ m ih =>
      obtain ⟨n, rfl⟩ : ∃ k, n = k + 1 := ⟨n - 1, by omega⟩
      cases bytes with
      | nil => simp [leDecode]
      | cons b bytes =>
          have hrest := ih (Nat.le_of_succ_le_succ hle) bytes
          have hb := b.toNat_lt
          rw [List.take_succ_cons, List.take_succ_cons, leDecode, leDecode, pow_succ', Nat.mod_mul,
            Nat.add_mul_mod_self_left, Nat.mod_eq_of_lt hb, Nat.add_mul_div_left _ _ (by decide),
            Nat.div_eq_of_lt hb, Nat.zero_add, hrest]

namespace CrcState

variable {s : CrcState} {m n : Nat}

theorem length_block (h : n ≤ s.buffer.length) :
    (s.block n).buffer.length = s.buffer.length := by
  simp only [block, List.length_append, length_leEncode, List.length_drop]
  omega

theorem low_block (hmn : m ≤ n) :
    leDecode ((s.block n).buffer.take m) = (leDecode (s.buffer.take m) + 1) % 256 ^ m := by
  rw [block, List.take_append_of_le_length (by rw [length_leEncode]; exact hmn),
    leDecode_take_leEncode hmn, Nat.add_mod, leDecode_take_mod hmn, ← Nat.mod_add_mod]
  simp

theorem iterate_block (k : Nat) (hmn : m ≤ n) (h : k ≠ 0 → n ≤ s.buffer.length) :
    ((block n)^[k] s).buffer.length = s.buffer.length ∧
      leDecode (((block n)^[k] s).buffer.take m) % 256 ^ m =
        (leDecode (s.buffer.take m) + k) % 256 ^ m := by
  induction k with
  | zero => exact ⟨rfl, rfl⟩
  | succ k ih =>
      have hn := h (Nat.succ_ne_zero k)
      obtain ⟨hlength, hlow⟩ := ih fun _ => hn
      rw [Function.iterate_succ_apply']
      refine ⟨(length_block (by rw [hlength]; exact hn)).trans hlength, ?_⟩
      rw [low_block hmn, Nat.mod_mod, ← Nat.mod_add_mod, hlow, Nat.mod_add_mod, Nat.add_assoc]

/-! ## A buffer of zeros -/

theorem leEncode_small {v : Nat} (hv : v < 256) (n : Nat) :
    leEncode (n + 1) v = UInt8.ofNat v :: List.replicate n 0 := by
  have hzero : ∀ n, leEncode n 0 = List.replicate n 0 := by
    intro n
    induction n with
    | zero => rfl
    | succ n ih =>
        rw [leEncode, ih]
        rfl
  rw [leEncode, Nat.div_eq_of_lt hv, hzero]

theorem leDecode_small (v : UInt8) (n : Nat) : leDecode (v :: List.replicate n 0) = v.toNat := by
  have hzero : leDecode (List.replicate n 0) = 0 := by
    induction n with
    | zero => rfl
    | succ n ih =>
        rw [List.replicate_succ, leDecode, ih]
        rfl
  rw [leDecode, hzero]
  rfl

theorem block_small {v length : Nat} (hv : v + 1 < 256) (hn : n ≤ length)
    (h : s.buffer = UInt8.ofNat v :: List.replicate length 0) :
    (s.block (n + 1)).buffer = UInt8.ofNat (v + 1) :: List.replicate length 0 := by
  have htoNat : (UInt8.ofNat v).toNat = v := by
    rw [UInt8.toNat_ofNat', Nat.mod_eq_of_lt (by omega)]
  rw [block, h, List.take_succ_cons, List.drop_succ_cons, List.take_replicate, List.drop_replicate,
    Nat.min_eq_left hn, leDecode_small, htoNat, leEncode_small hv, List.cons_append,
    List.replicate_append_replicate, Nat.add_sub_cancel' hn]

theorem iterate_small {v length count : Nat} (hv : v + count < 256) (hcount : count ≤ 1)
    (hn : n ≤ length) (h : s.buffer = UInt8.ofNat v :: List.replicate length 0) :
    ((block (n + 1))^[count] s).buffer = UInt8.ofNat (v + count) :: List.replicate length 0 := by
  rcases Nat.le_one_iff_eq_zero_or_eq_one.mp hcount with rfl | rfl
  · exact h
  · exact block_small hv hn h

end CrcState

def crcPasses (length : Nat) : Nat := length % 8 % 4 / 2 + length % 8 / 4 + length / 8

theorem phCrc32C_changes {buffer : List UInt8} (crc : ULong)
    (hpasses : crcPasses buffer.length % 65536 ≠ 0) : (phCrc32C crc buffer).2 ≠ buffer := by
  intro hsame
  rw [crcPasses] at hpasses
  obtain ⟨hlength₁, hlow₁⟩ := @CrcState.iterate_block ⟨crc ^^^ 0xffffffff, buffer⟩ 2 2
    (buffer.length % 8 % 4 / 2) (Nat.le_refl _) fun hne => by
      show 2 ≤ buffer.length
      omega
  obtain ⟨hlength₂, hlow₂⟩ := @CrcState.iterate_block
    ((CrcState.block 2)^[buffer.length % 8 % 4 / 2] ⟨crc ^^^ 0xffffffff, buffer⟩) 2 4
    (buffer.length % 8 / 4) (by omega) fun hne => by
      rw [hlength₁]
      show 4 ≤ buffer.length
      omega
  obtain ⟨-, hlow₃⟩ := @CrcState.iterate_block ((CrcState.block 4)^[buffer.length % 8 / 4]
    ((CrcState.block 2)^[buffer.length % 8 % 4 / 2] ⟨crc ^^^ 0xffffffff, buffer⟩)) 2 8
    (buffer.length / 8) (by omega) fun hne => by
      rw [hlength₂, hlength₁]
      show 8 ≤ buffer.length
      omega
  rw [phCrc32C] at hsame
  simp only [Nat.mod_one, Function.iterate_zero, id_eq] at hsame
  rw [hsame] at hlow₃
  dsimp only at hlow₁
  norm_num only at hlow₁ hlow₂ hlow₃
  omega

theorem phCrc32C_zeros {length : Nat} (crc : ULong) (hlength : 8 ≤ length) (hlt : length < 2 ^ 64) :
    (phCrc32C crc (List.replicate length 0)).2 ≠ List.replicate length 0 := by
  intro hsame
  obtain ⟨length, rfl⟩ : ∃ n, length = n + 1 := ⟨length - 1, by omega⟩
  rw [phCrc32C] at hsame
  simp only [Nat.mod_one, Function.iterate_zero, id_eq, List.length_replicate] at hsame
  generalize ha : (length + 1) % 8 % 4 / 2 = a at hsame
  generalize hb : (length + 1) % 8 / 4 = b at hsame
  have hsmall₁ := @CrcState.iterate_small ⟨crc ^^^ 0xffffffff, List.replicate (length + 1) 0⟩ 1 0
    length a (by omega) (by omega) (by omega) rfl
  have hsmall₂ := @CrcState.iterate_small _ 3 (0 + a) length b (by omega) (by omega) (by omega)
    hsmall₁
  obtain ⟨-, hlow⟩ := @CrcState.iterate_block ((CrcState.block 4)^[b] ((CrcState.block 2)^[a]
    ⟨crc ^^^ 0xffffffff, List.replicate (length + 1) 0⟩)) 8 8 ((length + 1) / 8) (Nat.le_refl _)
    fun _ => by
      rw [hsmall₂, List.length_cons, List.length_replicate]
      exact hlength
  have htoNat : (UInt8.ofNat (0 + a + b)).toNat = a + b := by
    rw [UInt8.toNat_ofNat', Nat.mod_eq_of_lt (by omega), Nat.zero_add]
  rw [hsame, hsmall₂, List.replicate_succ, List.take_succ_cons, List.take_succ_cons,
    List.take_replicate, CrcState.leDecode_small, CrcState.leDecode_small, htoNat] at hlow
  have hzero : (0 : UInt8).toNat = 0 := rfl
  rw [hzero, Nat.zero_mod, Nat.mod_eq_of_lt] at hlow
  · omega
  · norm_num only
    omega

/-- For a length of 0 the function is right for every remainder and every buffer, and for no other
length. -/
theorem phCrc32C_meets_iff (length : ULongPtr) :
    (∀ crc buffer, buffer.length = length.toNat → CrcMeets crc buffer) ↔ length = 0 := by
  constructor
  · intro h
    have hzeros := (h 0 (List.replicate length.toNat 0) (List.length_replicate ..)).1
    have hlt := length.isLt
    refine BitVec.eq_of_toNat_eq ?_
    show length.toNat = 0
    by_contra hne
    rcases Nat.lt_or_ge length.toNat 8 with hshort | hlong
    · rcases Nat.lt_or_ge length.toNat 2 with hone | htwo
      · -- Nothing is done with a single byte.
        have hlength : length.toNat = 1 := by omega
        rw [hlength] at hzeros
        exact absurd hzeros (by decide +kernel)
      · refine @phCrc32C_changes (List.replicate length.toNat 0) 0 ?_ ?_
        · rw [List.length_replicate, crcPasses]
          omega
        · rw [hzeros]
    · exact phCrc32C_zeros 0 hlong hlt (by rw [hzeros])
  · rintro rfl crc buffer hlength
    obtain rfl : buffer = [] := List.length_eq_zero_iff.mp hlength
    have hnothing : ∀ crc, phCrc32C crc [] = (crc, []) := by
      intro crc
      show (crc ^^^ 0xffffffff ^^^ 0xffffffff, []) = (crc, [])
      rw [BitVec.xor_assoc, BitVec.xor_self, BitVec.xor_zero]
    refine ⟨?_, fun a b hab => ?_⟩
    · show (crc ^^^ 0xffffffff ^^^ 0xffffffff, []) = (crc ^^^ 0xffffffff ^^^ 0xffffffff, [])
      rfl
    · obtain ⟨rfl, rfl⟩ := List.append_eq_nil_iff.mp hab.symm
      simp [hnothing]

/-- The buffer holds `ab`. -/
theorem phCrc32C_writes : ¬ CrcMeets 0 [0x61, 0x62] := by
  intro h
  have hbuffer : (phCrc32C 0 [0x61, 0x62]).2 = [0x62, 0x62] := by decide +kernel
  rw [h.1] at hbuffer
  exact absurd hbuffer (by decide)

end SystemInformer.PhLib
