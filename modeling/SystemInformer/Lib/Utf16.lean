import Mathlib

/-!
# UTF-16 and UTF-8

A character below `0x10000` is one code unit; any other is a high surrogate and a low one. A
decoder reads a high surrogate and the low one behind it as a character, and gives the
replacement character for a surrogate that stands alone.

Decoding a text in two parts is decoding it whole, unless a pair is cut (`decode_append`); if one
is, the two halves become two replacement characters of three bytes of UTF-8 each, where the pair
has four (`Splits.length`). So the number of bytes tells how many pairs were cut.
-/

namespace Utf16

variable {a b us : List UInt16} {u v : UInt16} {c : Char}

def IsHigh (u : UInt16) : Prop := 0xd800 ≤ u.toNat ∧ u.toNat < 0xdc00

def IsLow (u : UInt16) : Prop := 0xdc00 ≤ u.toNat ∧ u.toNat < 0xe000

instance (u : UInt16) : Decidable (IsHigh u) := inferInstanceAs (Decidable (_ ∧ _))

instance (u : UInt16) : Decidable (IsLow u) := inferInstanceAs (Decidable (_ ∧ _))

def replacement : Char := Char.ofNat 0xfffd

def unit (u : UInt16) : Char :=
  if IsHigh u ∨ IsLow u then replacement else Char.ofNat u.toNat

/-- What a high and a low surrogate stand for. -/
def pair (u v : UInt16) : Char :=
  Char.ofNat (0x10000 + (u.toNat - 0xd800) * 0x400 + (v.toNat - 0xdc00))

def encodeChar (c : Char) : List UInt16 :=
  if c.toNat < 0x10000 then [UInt16.ofNat c.toNat]
  else [UInt16.ofNat (0xd800 + (c.toNat - 0x10000) / 0x400),
    UInt16.ofNat (0xdc00 + (c.toNat - 0x10000) % 0x400)]

def encode (text : List Char) : List UInt16 := text.flatMap encodeChar

def decode : List UInt16 → List Char
  | [] => []
  | [u] => [unit u]
  | u :: v :: us =>
      if IsHigh u ∧ IsLow v then pair u v :: decode us else unit u :: decode (v :: us)

def utf8 (text : List Char) : List UInt8 := text.flatMap String.utf8EncodeChar

@[simp] theorem utf8_nil : utf8 [] = [] := rfl

@[simp] theorem utf8_append (s t : List Char) : utf8 (s ++ t) = utf8 s ++ utf8 t :=
  List.flatMap_append

theorem utf8_cons (c : Char) (s : List Char) :
    utf8 (c :: s) = String.utf8EncodeChar c ++ utf8 s := List.flatMap_cons

@[simp] theorem encode_nil : encode [] = [] := rfl

theorem encode_cons (c : Char) (s : List Char) : encode (c :: s) = encodeChar c ++ encode s :=
  List.flatMap_cons

/-! ## One character -/

theorem IsHigh.not_low (h : IsHigh u) : ¬ IsLow u := by
  simp only [IsHigh, IsLow] at *
  omega

theorem IsLow.not_high (h : IsLow u) : ¬ IsHigh u := by
  simp only [IsHigh, IsLow] at *
  omega

theorem toNat_pair (hu : IsHigh u) (hv : IsLow v) :
    (pair u v).toNat = 0x10000 + (u.toNat - 0xd800) * 0x400 + (v.toNat - 0xdc00) := by
  simp only [IsHigh, IsLow] at hu hv
  have hvalid : (0x10000 + (u.toNat - 0xd800) * 0x400 + (v.toNat - 0xdc00)).isValidChar :=
    Or.inr ⟨by omega, by omega⟩
  rw [pair, Char.ofNat, dif_pos hvalid]
  rfl

/-- A character below `0x10000` is one code unit, and no surrogate. -/
theorem encodeChar_of_lt (h : c.toNat < 0x10000) :
    ∃ u, encodeChar c = [u] ∧ ¬ IsHigh u ∧ ¬ IsLow u ∧ unit u = c := by
  have hu : (UInt16.ofNat c.toNat).toNat = c.toNat := by
    rw [UInt16.toNat_ofNat', Nat.mod_eq_of_lt h]
  have hc := c.valid
  have hhigh : ¬ IsHigh (UInt16.ofNat c.toNat) := by
    simp only [IsHigh, hu]
    rcases hc with hc | hc <;> simp only [Char.toNat] at * <;> omega
  have hlow : ¬ IsLow (UInt16.ofNat c.toNat) := by
    simp only [IsLow, hu]
    rcases hc with hc | hc <;> simp only [Char.toNat] at * <;> omega
  refine ⟨UInt16.ofNat c.toNat, if_pos h, hhigh, hlow, ?_⟩
  rw [unit, if_neg (by simp [hhigh, hlow]), hu, Char.ofNat_toNat]

/-- Any other is a pair. -/
theorem encodeChar_of_le (h : 0x10000 ≤ c.toNat) :
    ∃ u v, encodeChar c = [u, v] ∧ IsHigh u ∧ IsLow v ∧ pair u v = c := by
  have hc : c.toNat < 0x110000 := by
    rcases c.valid with hc | hc <;> simp only [Char.toNat] at * <;> omega
  have hu : (UInt16.ofNat (0xd800 + (c.toNat - 0x10000) / 0x400)).toNat
      = 0xd800 + (c.toNat - 0x10000) / 0x400 := by
    rw [UInt16.toNat_ofNat', Nat.mod_eq_of_lt]
    omega
  have hv : (UInt16.ofNat (0xdc00 + (c.toNat - 0x10000) % 0x400)).toNat
      = 0xdc00 + (c.toNat - 0x10000) % 0x400 := by
    rw [UInt16.toNat_ofNat', Nat.mod_eq_of_lt]
    omega
  have hhigh : IsHigh (UInt16.ofNat (0xd800 + (c.toNat - 0x10000) / 0x400)) := by
    simp only [IsHigh, hu]
    omega
  have hlow : IsLow (UInt16.ofNat (0xdc00 + (c.toNat - 0x10000) % 0x400)) := by
    simp only [IsLow, hv]
    omega
  refine ⟨_, _, if_neg (Nat.not_lt.mpr h), hhigh, hlow, ?_⟩
  have hpair := toNat_pair hhigh hlow
  rw [hu, hv] at hpair
  refine Char.toNat_inj.mp (hpair.trans ?_)
  omega

theorem utf8Size_eq_four (h : 0x10000 ≤ c.toNat) : c.utf8Size = 4 := by
  rw [Char.utf8Size_eq_four_iff, UInt32.lt_iff_toNat_lt]
  exact h

theorem utf8Size_le_three (h : c.toNat < 0x10000) : c.utf8Size ≤ 3 := by
  have hne : c.utf8Size ≠ 4 := by
    rw [Ne, Char.utf8Size_eq_four_iff, UInt32.lt_iff_toNat_lt, Nat.not_lt]
    exact Nat.le_of_lt_succ h
  have hle := c.utf8Size_le_four
  omega

theorem toNat_unit_lt : (unit u).toNat < 0x10000 := by
  have hu := u.toNat_lt
  rw [unit]
  split
  · next h => exact by decide
  · next h =>
      simp only [IsHigh, IsLow] at h
      have hvalid : u.toNat.isValidChar := by
        simp only [Nat.isValidChar]
        omega
      rw [Char.ofNat, dif_pos hvalid]
      exact hu

/-! ## Decoding -/

theorem decode_pair (hu : IsHigh u) (hv : IsLow v) : decode (u :: v :: us) = pair u v :: decode us := by
  rw [decode, if_pos ⟨hu, hv⟩]

theorem decode_unit (h : ∀ v ∈ us.head?, ¬ (IsHigh u ∧ IsLow v)) :
    decode (u :: us) = unit u :: decode us := by
  cases us with
  | nil => rfl
  | cons v us => rw [decode, if_neg (h v (by simp))]

theorem decode_encode (text : List Char) : decode (encode text) = text := by
  induction text with
  | nil => rfl
  | cons c text ih =>
      rcases Nat.lt_or_ge c.toNat 0x10000 with h | h
      · obtain ⟨u, hc, hhigh, -, hunit⟩ := encodeChar_of_lt h
        rw [encode_cons, hc, List.singleton_append, decode_unit fun v _ hp => hhigh hp.1, hunit, ih]
      · obtain ⟨u, v, hc, hu, hv, hpair⟩ := encodeChar_of_le h
        rw [encode_cons, hc]
        show decode (u :: v :: encode text) = c :: text
        rw [decode_pair hu hv, hpair, ih]

/-- A code unit takes three bytes at most. -/
theorem length_utf8_decode (us : List UInt16) : (utf8 (decode us)).length ≤ 3 * us.length := by
  induction us using decode.induct with
  | case1 => simp [decode]
  | case2 u =>
      have hunit := utf8Size_le_three (toNat_unit_lt (u := u))
      simpa [decode, utf8_cons] using hunit
  | case3 u v us h ih =>
      have hpair : (pair u v).utf8Size ≤ 4 := Char.utf8Size_le_four _
      rw [decode_pair h.1 h.2, utf8_cons]
      simp only [List.length_append, String.length_utf8EncodeChar, List.length_cons]
      omega
  | case4 u v us h ih =>
      have hunit := utf8Size_le_three (toNat_unit_lt (u := u))
      rw [decode, if_neg h, utf8_cons]
      simp only [List.length_append, String.length_utf8EncodeChar, List.length_cons] at ih ⊢
      omega

/-! ## Decoding in parts -/

/-- Between the two parts a pair is cut. -/
def Splits (a b : List UInt16) : Prop :=
  ∃ u ∈ a.getLast?, ∃ v ∈ b.head?, IsHigh u ∧ IsLow v

theorem Splits.cons (u : UInt16) (h : Splits a b) : Splits (u :: a) b := by
  obtain ⟨w, hw, hb⟩ := h
  exact ⟨w, by rw [List.getLast?_cons, Option.mem_def.mp hw]; rfl, hb⟩

theorem decode_append (h : ¬ Splits a b) : decode (a ++ b) = decode a ++ decode b := by
  induction a using decode.induct with
  | case1 => rfl
  | case2 u =>
      show decode (u :: b) = unit u :: decode b
      exact decode_unit fun v hv hp => h ⟨u, by simp, v, hv, hp⟩
  | case3 u v us hp ih =>
      show decode (u :: v :: (us ++ b)) = _
      rw [decode_pair hp.1 hp.2, decode_pair hp.1 hp.2,
        ih fun hs => h ((hs.cons v).cons u), List.cons_append]
  | case4 u v us hp ih =>
      show decode (u :: v :: (us ++ b)) = _
      rw [decode, if_neg hp, decode, if_neg hp]
      show _ :: decode ((v :: us) ++ b) = _
      rw [ih fun hs => h (hs.cons u), List.cons_append]

/-- The halves of a pair that is cut take two bytes more than the pair. -/
theorem Splits.length (h : Splits a b) :
    (utf8 (decode a)).length + (utf8 (decode b)).length = (utf8 (decode (a ++ b))).length + 2 := by
  obtain ⟨u, hu, v, hv, hhigh, hlow⟩ := h
  obtain ⟨a, rfl⟩ := List.getLast?_eq_some_iff.mp hu
  obtain ⟨b, rfl⟩ := List.head?_eq_some_iff.mp hv
  have hleft : decode (a ++ [u]) = decode a ++ [replacement] := by
    have hcut : ¬ Splits a [u] := by
      rintro ⟨w, -, x, hx, -, hx'⟩
      obtain rfl : u = x := by simpa using hx
      exact hhigh.not_low hx'
    rw [decode_append hcut, decode, unit, if_pos (.inl hhigh)]
  have hright : decode (v :: b) = replacement :: decode b := by
    rw [decode_unit fun w _ hp => hlow.not_high hp.1, unit, if_pos (.inr hlow)]
  have hwhole : decode (a ++ [u] ++ v :: b) = decode a ++ pair u v :: decode b := by
    have hcut : ¬ Splits a (u :: v :: b) := by
      rintro ⟨w, -, x, hx, -, hx'⟩
      obtain rfl : u = x := by simpa using hx
      exact hhigh.not_low hx'
    rw [List.append_assoc, List.singleton_append, decode_append hcut, decode_pair hhigh hlow]
  have hsize : (pair u v).utf8Size = 4 :=
    utf8Size_eq_four (by rw [toNat_pair hhigh hlow]; omega)
  have hreplacement : replacement.utf8Size = 3 := rfl
  rw [hleft, hright, hwhole]
  simp only [utf8_append, utf8_cons, utf8_nil, List.length_append, String.length_utf8EncodeChar,
    List.append_nil, hsize, hreplacement]
  omega

theorem splits_cons_iff (h : ¬ IsHigh u ∨ a ≠ []) : Splits (u :: a) b ↔ Splits a b := by
  refine ⟨fun hs => ?_, Splits.cons u⟩
  obtain ⟨w, hw, hb⟩ := hs
  cases a with
  | nil =>
      obtain rfl : u = w := by simpa using hw
      obtain ⟨v, -, hu, -⟩ := hb
      exact absurd hu (h.resolve_right fun hne => hne rfl)
  | cons x a =>
      rw [List.getLast?_cons_cons] at hw
      exact ⟨w, hw, hb⟩

theorem not_splits_nil : ¬ Splits [] b := fun ⟨_, hu, _⟩ => by simp at hu

/-! ## Where a text has its pairs -/

/-- The first unit of a character of two units is the last of the first `n`. -/
def CutsPair (text : List Char) (n : ℕ) : Prop :=
  ∃ before c after, text = before ++ c :: after ∧ 0x10000 ≤ c.toNat ∧
    (encode before).length + 1 = n

theorem cutsPair_cons {text : List Char} {n : ℕ} :
    CutsPair (c :: text) n ↔
      (0x10000 ≤ c.toNat ∧ n = 1) ∨ ∃ m, n = (encodeChar c).length + m ∧ CutsPair text m := by
  constructor
  · intro h
    obtain ⟨before, d, after, htext, hd, hn⟩ := h
    cases before with
    | nil =>
        obtain ⟨rfl, -⟩ := List.cons.inj htext
        exact .inl ⟨hd, hn.symm⟩
    | cons e before =>
        obtain ⟨rfl, hrest⟩ := List.cons.inj htext
        rw [encode_cons, List.length_append] at hn
        exact .inr ⟨_, by rw [← hn, Nat.add_assoc], before, d, after, hrest, hd, rfl⟩
  · intro h
    rcases h with ⟨hc, rfl⟩ | ⟨m, rfl, before, d, after, rfl, hd, rfl⟩
    · exact ⟨[], c, text, rfl, hc, rfl⟩
    · exact ⟨c :: before, d, after, rfl, hd, by rw [encode_cons, List.length_append, Nat.add_assoc]⟩

theorem splits_encode_iff {text : List Char} {n : ℕ} :
    Splits ((encode text).take n) ((encode text).drop n) ↔ CutsPair text n := by
  induction text generalizing n with
  | nil =>
      rw [encode_nil, List.take_nil]
      exact iff_of_false not_splits_nil fun ⟨_, _, _, h, _⟩ => by simp at h
  | cons c text ih =>
      rw [cutsPair_cons, encode_cons]
      rcases Nat.lt_or_ge c.toNat 0x10000 with h | h
      · obtain ⟨u, hc, hhigh, -, -⟩ := encodeChar_of_lt h
        rw [hc, List.singleton_append]
        cases n with
        | zero => exact iff_of_false not_splits_nil fun hn => by simp at hn; omega
        | succ n =>
            rw [List.take_succ_cons, List.drop_succ_cons, splits_cons_iff (.inl hhigh), ih]
            constructor
            · intro hcut
              exact .inr ⟨n, Nat.add_comm n 1, hcut⟩
            · intro hcut
              rcases hcut with ⟨hc', -⟩ | ⟨m, hm, hcut⟩
              · omega
              · obtain rfl : n = m := by simp only [List.length_singleton] at hm; omega
                exact hcut
      · obtain ⟨u, v, hc, hu, hv, -⟩ := encodeChar_of_le h
        rw [hc]
        match n with
        | 0 => exact iff_of_false not_splits_nil fun hn => by simp at hn; omega
        | 1 => exact iff_of_true ⟨u, rfl, v, rfl, hu, hv⟩ (.inl ⟨h, rfl⟩)
        | n + 2 =>
            show Splits (u :: v :: (encode text).take n) ((encode text).drop n) ↔ _
            rw [splits_cons_iff (.inr (List.cons_ne_nil _ _)), splits_cons_iff (.inl hv.not_high),
              ih]
            constructor
            · intro hcut
              exact .inr ⟨n, Nat.add_comm n 2, hcut⟩
            · intro hcut
              rcases hcut with ⟨-, hn⟩ | ⟨m, hm, hcut⟩
              · omega
              · obtain rfl : n = m := by simp only [List.length_cons, List.length_nil] at hm; omega
                exact hcut

/-! ## Block by block -/

/-- Blocks of `n` units, each decoded on its own. -/
def decodeBlocks (n : ℕ) (us : List UInt16) : List Char :=
  if h : n = 0 ∨ us = [] then []
  else
    have : (us.drop n).length < us.length := by
      have hlength := List.length_pos_iff.mpr fun he => h (.inr he)
      rw [List.length_drop]
      omega
    decode (us.take n) ++ decodeBlocks n (us.drop n)
termination_by us.length

theorem decodeBlocks_nil (n : ℕ) : decodeBlocks n [] = [] := by
  rw [decodeBlocks, dif_pos (.inr rfl)]

theorem decodeBlocks_of_ne {n : ℕ} (hn : 0 < n) (h : us ≠ []) :
    decodeBlocks n us = decode (us.take n) ++ decodeBlocks n (us.drop n) := by
  rw [decodeBlocks, dif_neg]
  intro hor
  exact hor.elim hn.ne' h

theorem splits_append_iff {a' : List UInt16} (h : a' ≠ []) : Splits (a ++ a') b ↔ Splits a' b := by
  induction a with
  | nil => rfl
  | cons u a ih =>
      rw [List.cons_append, splits_cons_iff (.inr (List.append_ne_nil_of_right_ne_nil _ h)), ih]

/-- No pair is cut by the end of a block. -/
def KeepsPairs (n : ℕ) (us : List UInt16) : Prop :=
  ∀ k, ¬ Splits (us.take (n * k)) (us.drop (n * k))

theorem keepsPairs_iff {n : ℕ} (hn : 0 < n) :
    KeepsPairs n us ↔ ¬ Splits (us.take n) (us.drop n) ∧ KeepsPairs n (us.drop n) := by
  have hnext : ∀ k, Splits (us.take (n * (k + 1))) (us.drop (n * (k + 1))) ↔
      if k = 0 then Splits (us.take n) (us.drop n)
      else Splits ((us.drop n).take (n * k)) ((us.drop n).drop (n * k)) := by
    intro k
    rcases k.eq_zero_or_pos with rfl | hk
    · rw [if_pos rfl, Nat.zero_add, Nat.mul_one]
    rw [if_neg hk.ne', Nat.mul_succ, Nat.add_comm, List.take_add, ← List.drop_drop]
    by_cases hempty : (us.drop n).take (n * k) = []
    · -- Nothing is left behind the first block, so there is no pair either.
      have hdrop : (us.drop n).drop (n * k) = [] := by
        have hlength := congrArg List.length hempty
        have hle : 1 * 1 ≤ n * k := Nat.mul_le_mul hn hk
        rw [List.length_take, List.length_nil] at hlength
        exact List.drop_eq_nil_of_le (by omega)
      rw [hdrop]
      exact iff_of_false (fun ⟨_, _, _, hv, _⟩ => by simp at hv) fun ⟨_, _, _, hv, _⟩ => by simp at hv
    · exact splits_append_iff hempty
  constructor
  · intro h
    refine ⟨fun hs => h 1 ((hnext 0).mpr hs), fun k hs => ?_⟩
    rcases k.eq_zero_or_pos with rfl | hk
    · exact not_splits_nil hs
    · exact h (k + 1) ((hnext k).mpr (by rwa [if_neg hk.ne']))
  · intro h k hs
    cases k with
    | zero => exact not_splits_nil hs
    | succ k =>
        rw [hnext] at hs
        split at hs
        · exact h.1 hs
        · exact h.2 k hs

theorem length_decode_le_blocks {n : ℕ} (hn : 0 < n) (us : List UInt16) :
    (utf8 (decode us)).length ≤ (utf8 (decodeBlocks n us)).length := by
  induction hlength : us.length using Nat.strong_induction_on generalizing us with
  | _ l ih =>
      by_cases h : us = []
      · rw [h, decodeBlocks_nil, decode]
      have hpos := List.length_pos_iff.mpr h
      have hrest := ih (us.drop n).length (by rw [List.length_drop]; omega) _ rfl
      have hcut : (utf8 (decode us)).length ≤
          (utf8 (decode (us.take n))).length + (utf8 (decode (us.drop n))).length := by
        by_cases hs : Splits (us.take n) (us.drop n)
        · rw [hs.length, List.take_append_drop]
          exact Nat.le_add_right _ _
        · have happend := decode_append hs
          rw [List.take_append_drop] at happend
          rw [happend, utf8_append, List.length_append]
      rw [decodeBlocks_of_ne hn h, utf8_append, List.length_append]
      omega

/-- Block by block gives the same bytes exactly if no pair is cut. -/
theorem utf8_decodeBlocks_iff {n : ℕ} (hn : 0 < n) (us : List UInt16) :
    utf8 (decodeBlocks n us) = utf8 (decode us) ↔ KeepsPairs n us := by
  induction hlength : us.length using Nat.strong_induction_on generalizing us with
  | _ l ih =>
      by_cases h : us = []
      · subst h
        rw [decodeBlocks_nil, decode]
        refine iff_of_true rfl fun k hs => ?_
        rw [List.take_nil] at hs
        exact not_splits_nil hs
      have hpos := List.length_pos_iff.mpr h
      rw [keepsPairs_iff hn, decodeBlocks_of_ne hn h, utf8_append,
        ← ih (us.drop n).length (by rw [List.length_drop]; omega) _ rfl]
      by_cases hs : Splits (us.take n) (us.drop n)
      · refine iff_of_false (fun heq => ?_) fun hkeeps => hkeeps.1 hs
        have hle := length_decode_le_blocks hn (us.drop n)
        have hcut := hs.length
        rw [List.take_append_drop] at hcut
        have hsame := congrArg List.length heq
        rw [List.length_append] at hsame
        omega
      · have happend := decode_append hs
        rw [List.take_append_drop] at happend
        rw [happend, utf8_append, List.append_cancel_left_eq]
        exact (and_iff_right hs).symm

end Utf16
