import SystemInformer.PhLib.StringCopy
import SystemInformer.Proofs.StringCopy
import SystemInformer.Lib.TaggedWord

/-!
# The length of a string at any address, and reversing one in place

Clearing the bits 1 to 3 of the address of a string leaves the block that the string begins in,
and shifting the mask by the bits cleared takes away the characters before the string. What is
left are the characters of the string in that block, so the first block and all others are one
case: a block is passed over when no character of the string in it is the terminator, and the
block that is loaded next then holds a character or the terminator of the string
(`countStringLoop_spec`).

Two indices that count towards each other meet or pass each other in the middle, and `i <= j` sees
that unless `j` was decremented at 0. It is when the string has one character, and it starts
below 0 when there is none.
-/

namespace SystemInformer.PhLib

/-! ## Counting -/

namespace WideMemory

variable {memory : WideMemory} {string : ULongPtr} {n : Nat}

/-- A string of `n` characters and a terminator, at an even address. -/
structure Terminated (memory : WideMemory) (string : ULongPtr) (n : Nat) : Prop where
  even : string.toNat % 2 = 0
  inside : string.toNat + 2 * n < 2 ^ 64
  chars : ∀ k < n, memory.char (string + BitVec.ofNat 64 (2 * k)) ≠ 0
  null : memory.char (string + BitVec.ofNat 64 (2 * n)) = 0

/-- A character of the string or its terminator is in the aligned block at `p`. -/
def Touches (string : ULongPtr) (n : Nat) (p : ULongPtr) : Prop :=
  p.toNat % 16 = 0 ∧
    ∃ k ≤ n, p.toNat ≤ string.toNat + 2 * k ∧ string.toNat + 2 * k < p.toNat + 16

theorem length_load (p : ULongPtr) : (memory.load p).length = 8 := by
  rw [load, List.length_map, List.length_range]

theorem getElem?_load {p : ULongPtr} {k : Nat} (h : k < 8) :
    (memory.load p)[k]? = some (memory.char (p + BitVec.ofNat 64 (2 * k))) := by
  rw [load, List.getElem?_map, List.getElem?_range h, Option.map_some]

theorem toNat_add_ofNat {p : ULongPtr} {k : Nat} (h : p.toNat + k < 2 ^ 64) :
    (p + BitVec.ofNat 64 k).toNat = p.toNat + k := by
  rw [BitVec.toNat_add, BitVec.toNat_ofNat, Nat.add_mod_mod, Nat.mod_eq_of_lt h]

/-- The characters of the string in a block, from its character `skip` on: they are those from the
index `done` of the string on. -/
theorem getElem?_drop_load {p : ULongPtr} {skip done k : Nat}
    (haddr : p + BitVec.ofNat 64 (2 * skip) = string + BitVec.ofNat 64 (2 * done))
    (hk : skip + k < 8) :
    ((memory.load p).drop skip)[k]? =
      some (memory.char (string + BitVec.ofNat 64 (2 * (done + k)))) := by
  rw [List.getElem?_drop, getElem?_load hk, Nat.mul_add, Nat.mul_add, BitVec.ofNat_add,
    BitVec.ofNat_add, ← BitVec.add_assoc, ← BitVec.add_assoc, haddr]

theorem findIdx?_drop_load (h : memory.Terminated string n) {p : ULongPtr} {skip done : Nat}
    (haddr : p + BitVec.ofNat 64 (2 * skip) = string + BitVec.ofNat 64 (2 * done))
    (hdone : done ≤ n) :
    ((memory.load p).drop skip).findIdx? (· == 0) =
      if skip + (n - done) < 8 then some (n - done) else none := by
  have hlength : ((memory.load p).drop skip).length = 8 - skip := by
    rw [List.length_drop, length_load]
  -- The characters before the terminator are none.
  have hchars : ∀ k (hk : k < ((memory.load p).drop skip).length), done + k < n →
      ((memory.load p).drop skip)[k] ≠ 0 := by
    intro k hk hlt hzero
    have hget : ((memory.load p).drop skip)[k]? = _ := getElem?_drop_load haddr (by omega)
    rw [List.getElem?_eq_getElem hk, Option.some.injEq, hzero] at hget
    exact h.chars _ hlt hget.symm
  split
  · next hin =>
      have hn : n - done < ((memory.load p).drop skip).length := by omega
      have hget : ((memory.load p).drop skip)[n - done]? = _ :=
        getElem?_drop_load haddr (by omega)
      rw [show done + (n - done) = n by omega, h.null, List.getElem?_eq_getElem hn,
        Option.some.injEq] at hget
      rw [List.findIdx?_eq_some_iff_getElem]
      refine ⟨hn, by rw [hget]; rfl, fun k hk => ?_⟩
      rw [beq_iff_eq]
      exact hchars k (by omega) (by omega)
  · next hout =>
      rw [List.findIdx?_eq_none_iff]
      intro c hc
      obtain ⟨k, hk, rfl⟩ := List.getElem_of_mem hc
      exact beq_eq_false_iff_ne.mpr (hchars k hk (by omega))

theorem bitScanForward_load (h : memory.Terminated string n) {p : ULongPtr} {skip done : Nat}
    (haddr : p + BitVec.ofNat 64 (2 * skip) = string + BitVec.ofNat 64 (2 * done))
    (hdone : done ≤ n) :
    if skip + (n - done) < 8 then
      ∃ index, bitScanForward (compareMask 0 ((memory.load p).drop skip)) = some index ∧
        index / 2 = n - done
    else bitScanForward (compareMask 0 ((memory.load p).drop skip)) = none := by
  have hfind := findIdx?_drop_load h haddr hdone
  split
  · next hin =>
      rw [if_pos hin] at hfind
      rcases bitScanForward_none_or ((memory.load p).drop skip) with
        ⟨-, hnone⟩ | ⟨i, hscan, hsome⟩
      · rw [hnone] at hfind
        exact nomatch hfind
      · rw [hsome] at hfind
        exact ⟨i, hscan, Option.some.inj hfind⟩
  · next hout =>
      rw [if_neg hout] at hfind
      rcases bitScanForward_none_or ((memory.load p).drop skip) with
        ⟨hscan, -⟩ | ⟨i, -, hsome⟩
      · exact hscan
      · rw [hsome] at hfind
        exact nomatch hfind

theorem countStringLoop_spec (h : memory.Terminated string n) :
    ∀ fuel done loaded p, done ≤ n → n < done + 8 * fuel →
      p.toNat = string.toNat + 2 * done → p.toNat % 16 = 0 →
      (∀ q ∈ loaded, Touches string n q) →
      ∃ loaded', memory.countStringLoop string fuel p loaded = some (n, loaded') ∧
        ∀ q ∈ loaded', Touches string n q := by
  intro fuel
  induction fuel with
  | zero =>
      intro done loaded p hdone hfuel
      omega
  | succ fuel ih =>
      intro done loaded p hdone hfuel hp halign hloaded
      have hinside := h.inside
      have haddr : p = string + BitVec.ofNat 64 (2 * done) := by
        apply BitVec.eq_of_toNat_eq
        rw [toNat_add_ofNat (by omega), hp]
      have htouches : ∀ q ∈ loaded ++ [p], Touches string n q := by
        intro q hq
        rcases List.mem_append.mp hq with hq | hq
        · exact hloaded q hq
        · rw [List.mem_singleton.mp hq]
          exact ⟨halign, done, hdone, by omega, by omega⟩
      have hscan := bitScanForward_load h
        (show p + BitVec.ofNat 64 (2 * 0) = _ by rw [haddr]; simp) hdone
      rw [List.drop_zero] at hscan
      rw [countStringLoop]
      split at hscan
      · obtain ⟨index, hindex, hhalf⟩ := hscan
        have hdiff : (p - string).toNat = 2 * done := by
          rw [BitVec.toNat_sub_of_le (by rw [BitVec.le_def]; omega), hp]
          omega
        rw [hindex]
        dsimp only
        rw [hdiff, hhalf, Nat.mul_div_cancel_left _ Nat.two_pos, Nat.add_sub_cancel' hdone]
        exact ⟨_, rfl, htouches⟩
      · next hout =>
          rw [hscan]
          -- The next block begins at or before the terminator.
          have hnext : (p + 16).toNat = p.toNat + 16 :=
            toNat_add_ofNat (k := 16) (by omega)
          exact ih (done + 8) _ _ (by omega) (by omega) (by omega) (by omega) htouches

theorem aligned_spec (heven : string.toNat % 2 = 0) :
    (string &&& 0xf).toNat = string.toNat % 16 ∧
    (string &&& ~~~0xe).toNat = string.toNat / 16 * 16 := by
  have hlow : (string &&& 0xf).toNat = string.toNat % 16 :=
    TaggedWord.toNat_and_mask 4 (by decide) string
  have hbit : (string &&& 0xf &&& 1).toNat = 0 := by
    rw [show (string &&& 0xf &&& 1).toNat = (string &&& 0xf).toNat % 2 from
      TaggedWord.toNat_and_mask 1 (by decide) _, hlow]
    omega
  have hmask : string &&& 0xf &&& ~~~1 = string &&& 0xe := by
    rw [BitVec.and_assoc]
    rfl
  have hsplit := TaggedWord.toNat_and_add (string &&& 0xf) 1
  have hwhole := TaggedWord.toNat_and_add string 0xe
  rw [hmask, hbit, hlow] at hsplit
  exact ⟨hlow, by omega⟩

/-- The first terminator is found, and no block is loaded but those that the string is in. -/
theorem phCountStringZ_loads (h : memory.Terminated string n) :
    ∃ fuel loaded, memory.phCountStringZ string fuel = some (n, loaded) ∧
      ∀ p ∈ loaded, Touches string n p := by
  have hinside := h.inside
  have heven := h.even
  obtain ⟨hlow, hblock⟩ := aligned_spec heven
  refine ⟨n + 1, ?_⟩
  rw [phCountStringZ, hlow]
  split
  · next hunaligned =>
      generalize hp : string &&& ~~~0xe = p at hblock ⊢
      have hfirst : Touches string n p :=
        ⟨by omega, 0, Nat.zero_le n, by omega, by omega⟩
      have hskip : 2 * (string.toNat % 16 / 2) = string.toNat % 16 := by omega
      have haddr : p + BitVec.ofNat 64 (2 * (string.toNat % 16 / 2)) =
          string + BitVec.ofNat 64 (2 * 0) := by
        apply BitVec.eq_of_toNat_eq
        rw [toNat_add_ofNat (by omega), toNat_add_ofNat (by omega), hblock]
        omega
      have hmask : (compareMask 0 (memory.load p)).drop (string.toNat % 16) =
          compareMask 0 ((memory.load p).drop (string.toNat % 16 / 2)) := by
        have hdrop := compareMask_drop ((memory.load p).take (string.toNat % 16 / 2))
          ((memory.load p).drop (string.toNat % 16 / 2))
        rw [List.take_append_drop, List.length_take_of_le (by rw [length_load]; omega),
          hskip] at hdrop
        exact hdrop
      have hscan := bitScanForward_load h haddr (Nat.zero_le n)
      rw [hmask]
      split at hscan
      · obtain ⟨index, hindex, hhalf⟩ := hscan
        rw [hindex]
        dsimp only
        rw [hhalf, Nat.sub_zero]
        exact ⟨_, rfl, fun q hq => by rw [List.mem_singleton.mp hq]; exact hfirst⟩
      · next hout =>
          rw [hscan]
          have hnext : (p + 16).toNat = p.toNat + 16 := toNat_add_ofNat (k := 16) (by omega)
          exact countStringLoop_spec h (n + 1) (8 - string.toNat % 16 / 2) _ _ (by omega)
            (by omega) (by omega) (by omega)
            fun q hq => by rw [List.mem_singleton.mp hq]; exact hfirst
  · next haligned =>
      exact countStringLoop_spec h (n + 1) 0 [] _ (Nat.zero_le n) (by omega) (by omega)
        (by omega) nofun

/-- `ab` at the end of a block, behind a character that is not of the string. -/
theorem phCountStringZ_loads_ab :
    ∃ fuel loaded,
      (⟨fun a => if a = 16 then 0 else 0x61⟩ : WideMemory).phCountStringZ 12 fuel =
        some (2, loaded) ∧ ∀ p ∈ loaded, Touches 12 2 p :=
  phCountStringZ_loads ⟨by decide, by decide, by decide, by decide⟩

end WideMemory

/-! ## Reversing -/

/-- The characters outside of the indices `k` to `m` have changed places, those between have
not. -/
def ReversedOutside (original buffer : List WChar) (k m : Nat) : Prop :=
  buffer.length = original.length ∧
    ∀ x < original.length, buffer[x]? =
      if k ≤ x ∧ x < m then original[x]? else original[original.length - 1 - x]?

variable {original buffer : List WChar} {k m : Nat}

theorem ReversedOutside.eq_reverse (h : ReversedOutside original buffer k m) (hmk : m ≤ k + 1)
    (hsum : k + m = original.length) : buffer = original.reverse := by
  apply List.ext_getElem?
  intro x
  rcases Nat.lt_or_ge x original.length with hx | hx
  · rw [h.2 x hx, List.getElem?_reverse hx]
    split
    · -- The character in the middle.
      rw [show original.length - 1 - x = x by omega]
    · rfl
  · rw [List.getElem?_eq_none (by rw [h.1]; exact hx),
      List.getElem?_eq_none (by rw [List.length_reverse]; exact hx)]

theorem ReversedOutside.swap (h : ReversedOutside original buffer k (m + 1)) (hkm : k ≤ m)
    (hsum : k + (m + 1) = original.length) :
    ReversedOutside original
      ((buffer.set k (buffer.getD m 0)).set m (buffer.getD k 0)) (k + 1) m := by
  refine ⟨by rw [List.length_set, List.length_set, h.1], fun x hx => ?_⟩
  have hk := h.2 k (by omega)
  have hm := h.2 m (by omega)
  rw [if_pos (by omega)] at hk hm
  have hgetK : buffer.getD k 0 = original.getD k 0 := by
    rw [List.getD_eq_getElem?_getD, hk, List.getD_eq_getElem?_getD]
  have hgetM : buffer.getD m 0 = original.getD m 0 := by
    rw [List.getD_eq_getElem?_getD, hm, List.getD_eq_getElem?_getD]
  have hsome : ∀ y < original.length, some (original.getD y 0) = original[y]? := by
    intro y hy
    rw [List.getD_eq_getElem?_getD, List.getElem?_eq_getElem hy, Option.getD_some]
  have hlength := h.1
  rw [hgetK, hgetM]
  by_cases hxm : x = m
  · rw [hxm, List.getElem?_set_self (by rw [List.length_set]; omega), if_neg (by omega),
      hsome k (by omega), show original.length - 1 - m = k by omega]
  · rw [List.getElem?_set_ne (Ne.symm hxm)]
    by_cases hxk : x = k
    · rw [hxk, List.getElem?_set_self (by omega), if_neg (by omega), hsome m (by omega),
        show original.length - 1 - k = m by omega]
    · rw [List.getElem?_set_ne (Ne.symm hxk), h.2 x hx]
      by_cases hin : k ≤ x ∧ x < m + 1
      · rw [if_pos hin, if_pos (by omega)]
      · rw [if_neg hin, if_neg (by omega)]

theorem reverseLoop_eq (hsize : original.length < 2 ^ 63) (htwo : 2 ≤ original.length) :
    ∀ fuel (i j : UInt64) k m buffer, i.toNat = k → j.toNat = m → m + 2 < k + 2 * fuel →
      k ≤ m + 2 → k + (m + 1) = original.length →
      ReversedOutside original buffer k (m + 1) →
      reverseLoop fuel i j buffer = .reversed original.reverse := by
  intro fuel
  induction fuel with
  | zero =>
      intro i j k m buffer hi hj hfuel hkm
      omega
  | succ fuel ih =>
      intro i j k m buffer hi hj hfuel hkm hsum h
      have hlength := h.1
      rw [reverseLoop]
      split
      · next hle =>
          rw [UInt64.le_iff_toNat_le, hi, hj] at hle
          rw [if_pos (by omega)]
          dsimp only
          rw [hi, hj]
          -- The second index is not 0, since there are two characters.
          obtain ⟨m, rfl⟩ : ∃ m', m = m' + 1 := ⟨m - 1, by omega⟩
          refine ih (i + 1) (j - 1) (k + 1) m _ ?_ ?_ (by omega) (by omega) (by omega)
            (h.swap hle hsum)
          · rw [UInt64.toNat_add, hi]
            exact Nat.mod_eq_of_lt (show k + 1 < 2 ^ 64 by omega)
          · have hone : 1 ≤ j := by
              rw [UInt64.le_iff_toNat_le, hj]
              exact Nat.le_add_left 1 m
            rw [UInt64.toNat_sub_of_le _ _ hone, hj]
            rfl
      · next hlt =>
          rw [UInt64.le_iff_toNat_le, hi, hj] at hlt
          exact congrArg ReverseEnd.reversed (h.eq_reverse (by omega) hsum)

theorem reverseLoop_wrapped {buffer : List WChar} {i : UInt64} (hi : buffer.length ≤ i.toNat)
    (fuel : Nat) (result : List WChar) :
    reverseLoop fuel i (0 - 1) buffer ≠ .reversed result := by
  cases fuel with
  | zero => exact nofun
  | succ fuel =>
      have hle : i ≤ 0 - 1 := by
        have hlt := i.toNat_lt
        have hmax : ((0 : UInt64) - 1).toNat = 2 ^ 64 - 1 := rfl
        rw [UInt64.le_iff_toNat_le]
        omega
      rw [reverseLoop, if_pos hle, if_neg (by omega)]
      exact nofun

theorem phReverseStringRef_short {buffer : List WChar} (h : buffer.length < 2) (fuel : Nat)
    (result : List WChar) : phReverseStringRef buffer fuel ≠ .reversed result := by
  match buffer with
  | [] =>
      rw [phReverseStringRef, List.length_nil, show UInt64.ofNat 0 - 1 = 0 - 1 by decide]
      exact reverseLoop_wrapped (Nat.zero_le _) fuel result
  | [c] =>
      cases fuel with
      | zero => exact nofun
      | succ fuel =>
          rw [phReverseStringRef, List.length_singleton,
            show UInt64.ofNat 1 - 1 = 0 by decide, reverseLoop, if_pos (by decide),
            if_pos ⟨Nat.one_pos, Nat.one_pos⟩]
          have hi : ([c].set 0 ([c].getD 0 0)).length ≤ ((0 : UInt64) + 1).toNat := Nat.le_refl 1
          exact reverseLoop_wrapped hi fuel result
  | _ :: _ :: _ =>
      rw [List.length_cons, List.length_cons] at h
      omega

/-- A string is reversed if it has two characters; otherwise the loop leaves it. A `SIZE_T` counts
its bytes. -/
theorem phReverseStringRef_iff (buffer : List WChar) (hsize : 2 * buffer.length < 2 ^ 64) :
    (∃ fuel, phReverseStringRef buffer fuel = .reversed buffer.reverse) ↔
      2 ≤ buffer.length := by
  constructor
  · rintro ⟨fuel, h⟩
    by_contra hshort
    exact phReverseStringRef_short (by omega) fuel _ h
  · intro htwo
    refine ⟨buffer.length + 1, ?_⟩
    have hlength : (UInt64.ofNat buffer.length).toNat = buffer.length := by
      rw [UInt64.toNat_ofNat', Nat.mod_eq_of_lt (by omega)]
    have hone : 1 ≤ UInt64.ofNat buffer.length := by
      rw [UInt64.le_iff_toNat_le, hlength]
      exact Nat.one_le_of_lt htwo
    have hj : (UInt64.ofNat buffer.length - 1).toNat = buffer.length - 1 := by
      rw [UInt64.toNat_sub_of_le _ _ hone, hlength]
      rfl
    refine reverseLoop_eq (by omega) htwo _ 0 _ 0 (buffer.length - 1) buffer rfl hj (by omega)
      (by omega) (by omega) ⟨rfl, fun x hx => ?_⟩
    rw [if_pos (by omega)]

theorem phReverseStringRef_ab :
    (∃ fuel, phReverseStringRef [0x61, 0x62] fuel = .reversed [0x61, 0x62].reverse) ↔
      2 ≤ [(0x61 : WChar), 0x62].length :=
  phReverseStringRef_iff _ (by decide)

/-- A string of one character is left at its end. -/
theorem phReverseStringRef_one :
    ¬ ∃ fuel, phReverseStringRef [0x61] fuel = .reversed [0x61].reverse := by
  rintro ⟨fuel, h⟩
  exact phReverseStringRef_short (by decide) fuel _ h

end SystemInformer.PhLib
