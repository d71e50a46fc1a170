import SystemInformer.PhLib.StringHash
import SystemInformer.Proofs.StringRef

/-!
# Equal strings hash alike, but for X65599 without case

A hash of a string is a fold over its characters, so it is a function of the folded string. The
comparison folds with the system's table, and so does FNV-1a. X65599 folds by itself: strings that
are equal without case hash alike for it exactly if its own folding identifies all characters that
the table does, since on strings of one character it is the identity.
-/

namespace SystemInformer.PhLib

variable {processor : Processor} {phUpcaseUnicodeChar : WChar → WChar}

theorem map_eq_of_map_eq {f g : WChar → WChar} (hfg : ∀ c d, f c = f d → g c = g d) :
    ∀ {string1 string2 : List WChar}, string1.map f = string2.map f →
      string1.map g = string2.map g := by
  intro string1
  induction string1 with
  | nil =>
      intro string2 h
      rw [List.map_eq_nil_iff.mp h.symm]
  | cons c string1 ih =>
      intro string2 h
      cases string2 with
      | nil => exact absurd h (List.cons_ne_nil _ _)
      | cons d string2 =>
          obtain ⟨hhead, htail⟩ := List.cons.inj h
          rw [List.map_cons, List.map_cons, hfg c d hhead, ih htail]

theorem phHashStringRef_congr {string1 string2 : List WChar} {ignoreCase : Bool}
    (h : string1.map (foldChar phUpcaseUnicodeChar ignoreCase) =
      string2.map (foldChar phUpcaseUnicodeChar ignoreCase)) :
    phHashStringRef phUpcaseUnicodeChar string1 ignoreCase =
      phHashStringRef phUpcaseUnicodeChar string2 ignoreCase := by
  cases ignoreCase with
  | false =>
      have hid : foldChar phUpcaseUnicodeChar false = id := rfl
      rw [hid, List.map_id, List.map_id] at h
      rw [h]
  | true =>
      have hfold : foldChar phUpcaseUnicodeChar true = phUpcaseUnicodeChar := rfl
      have hlength : string1.length = string2.length := by
        rw [← List.length_map (foldChar phUpcaseUnicodeChar true), h, List.length_map]
      rw [hfold] at h
      rw [phHashStringRef, phHashStringRef, hlength]
      simp only [if_pos]
      rw [← List.foldl_map (f := phUpcaseUnicodeChar)
          (g := fun hash c => fnv1aStep hash (BitVec.ofNat 32 c.toNat)), h, List.foldl_map]

theorem x65599_congr {string1 string2 : List WChar}
    (h : string1.map upcaseAscii = string2.map upcaseAscii) :
    phHashStringRefEx phUpcaseUnicodeChar string1 true .x65599 =
      phHashStringRefEx phUpcaseUnicodeChar string2 true .x65599 := by
  have hlength : string1.length = string2.length := by
    rw [← List.length_map upcaseAscii, h, List.length_map]
  rw [phHashStringRefEx, phHashStringRefEx, hlength]
  simp only [if_pos]
  rw [← List.foldl_map (f := upcaseAscii)
      (g := fun (hash : ULong) c => 65599 * hash + BitVec.ofNat 32 c.toNat), h, List.foldl_map]

theorem x65599_singleton (c : WChar) :
    phHashStringRefEx phUpcaseUnicodeChar [c] true .x65599 =
      BitVec.ofNat 32 (upcaseAscii c).toNat := by
  rw [phHashStringRefEx, if_neg (by rw [List.length_singleton]; exact one_ne_zero), if_pos rfl,
    List.foldl_cons, List.foldl_nil]
  simp

def HashesAgree (processor : Processor) (phUpcaseUnicodeChar : WChar → WChar) (ignoreCase : Bool)
    (hashAlgorithm : PhStringHash) : Prop :=
  ∀ string1 string2 : List WChar,
    phEqualStringRef processor phUpcaseUnicodeChar string1 string2 ignoreCase = true →
      phHashStringRefEx phUpcaseUnicodeChar string1 ignoreCase hashAlgorithm =
        phHashStringRefEx phUpcaseUnicodeChar string2 ignoreCase hashAlgorithm

/-- Equal strings hash alike exactly when the hash is not X65599 without case, or the table
identifies no characters that the letters from `a` to `z` do not account for. -/
theorem phHashStringRefEx_agrees (processor : Processor) (phUpcaseUnicodeChar : WChar → WChar)
    (ignoreCase : Bool) (hashAlgorithm : PhStringHash) :
    HashesAgree processor phUpcaseUnicodeChar ignoreCase hashAlgorithm ↔
      ¬ (hashAlgorithm = .x65599 ∧ ignoreCase = true) ∨
        ∀ c d, phUpcaseUnicodeChar c = phUpcaseUnicodeChar d → upcaseAscii c = upcaseAscii d := by
  by_cases hcase : hashAlgorithm = .x65599 ∧ ignoreCase = true
  · obtain ⟨rfl, rfl⟩ := hcase
    rw [or_iff_right (not_not.mpr ⟨rfl, rfl⟩)]
    constructor
    · intro h c d hcd
      have hhash := h [c] [d] ((phEqualStringRef_iff [c] [d] true).mpr (congrArg (fun e => [e]) hcd))
      rw [x65599_singleton, x65599_singleton] at hhash
      have hnat := congrArg BitVec.toNat hhash
      have hc := (upcaseAscii c).toNat_lt
      have hd := (upcaseAscii d).toNat_lt
      rw [BitVec.toNat_ofNat, BitVec.toNat_ofNat, Nat.mod_eq_of_lt (by omega),
        Nat.mod_eq_of_lt (by omega)] at hnat
      exact UInt16.toNat_inj.mp hnat
    · intro h string1 string2 hequal
      exact x65599_congr (map_eq_of_map_eq h ((phEqualStringRef_iff _ _ _).mp hequal))
  · refine iff_of_true (fun string1 string2 hequal => ?_) (Or.inl hcase)
    have hfold := (phEqualStringRef_iff _ _ _).mp hequal
    cases hashAlgorithm with
    | default => exact phHashStringRef_congr hfold
    | fnv1a => exact phHashStringRef_congr hfold
    | x65599 =>
        cases ignoreCase with
        | true => exact absurd ⟨rfl, rfl⟩ hcase
        | false =>
            have hid : foldChar phUpcaseUnicodeChar false = id := rfl
            rw [hid, List.map_id, List.map_id] at hfold
            rw [hfold]

/-- The part of the system's table for the first 256 characters. -/
def upcaseLatin1 (c : WChar) : WChar :=
  if 0x61 ≤ c ∧ c ≤ 0x7a then c - 0x20
  else if 0xe0 ≤ c ∧ c ≤ 0xfe ∧ c ≠ 0xf7 then c - 0x20
  else if c = 0xff then 0x178
  else c

/-- `é` and `É` are equal without case, and hash differently. -/
theorem phHashStringRefEx_differs : ¬ HashesAgree ⟨true, true⟩ upcaseLatin1 true .x65599 := by
  intro h
  exact absurd (h [0xe9] [0xc9] (by decide +kernel)) (by decide +kernel)

end SystemInformer.PhLib
