import SystemInformer.PhLib.StringInteger
import SystemInformer.Proofs.Format

/-!
# Integers survive as strings, unless they begin with a sign

The formatter writes the digits of a number from the most significant one on, and the parser is
Horner's rule over them, so the two are inverse on digits of any base (`parse_digits`). What the
parser does before that is to skip a sign. Digits are written as `+` and `-` too, from base 48
and base 50 on, and a number that begins with one of these digits loses it: what is left is a
smaller number, and it is negated after a minus sign. Negating cannot repair the loss, because
then 49 times a power of the base would lie between two bounds where no even one lies.

A negative number begins with its own minus sign, so that nothing is lost. No number but zero
begins with the digit zero, so a base is never inferred.
-/

namespace SystemInformer.PhLib

variable {Single Double : Type} {env : FormatEnv Single Double}

/-! ## Digits -/

def digitChar (d : Nat) : WChar := phIntegerToChar.getD d 0

/-- The digits of a number, the most significant one first. -/
def numeral (b v : Nat) : List Nat := if v = 0 then [0] else (Nat.digits b v).reverse

/-- Horner's rule, from a value on. -/
def horner (b : Nat) (ds : List Nat) (n : Nat) : Nat := ds.foldl (fun n d => n * b + d) n

theorem horner_cons (b d n : Nat) (ds : List Nat) :
    horner b (d :: ds) n = horner b ds (n * b + d) := rfl

theorem horner_eq (b : Nat) (ds : List Nat) :
    ∀ n, horner b ds n = n * b ^ ds.length + horner b ds 0 := by
  induction ds with
  | nil => intro n; rw [horner, horner, List.foldl_nil, List.foldl_nil, List.length_nil]; ring
  | cons d ds ih =>
      intro n
      rw [horner_cons, horner_cons, ih (n * b + d), ih (0 * b + d), List.length_cons]
      ring

theorem horner_lt {b : Nat} (ds : List Nat) (hds : ∀ d ∈ ds, d < b) :
    horner b ds 0 < b ^ ds.length := by
  induction ds with
  | nil => exact Nat.one_pos
  | cons d ds ih =>
      have hd := hds d List.mem_cons_self
      have hrest := ih fun d hd => hds d (List.mem_cons_of_mem _ hd)
      rw [horner_cons, horner_eq, List.length_cons]
      calc (0 * b + d) * b ^ ds.length + horner b ds 0
          < (0 * b + d) * b ^ ds.length + b ^ ds.length := Nat.add_lt_add_left hrest _
        _ = (d + 1) * b ^ ds.length := by ring
        _ ≤ b * b ^ ds.length := Nat.mul_le_mul_right _ hd
        _ = b ^ (ds.length + 1) := (pow_succ' b ds.length).symm

theorem horner_numeral (b v : Nat) : horner b (numeral b v) 0 = v := by
  rw [numeral]
  split
  · next hzero => rw [hzero, horner_cons, Nat.zero_mul]; rfl
  · rw [horner, List.foldl_reverse]
    calc (Nat.digits b v).foldr (fun d n => n * b + d) 0
        = (Nat.digits b v).foldr (fun d n => d + b * n) 0 := by
          congr 1
          funext d n
          rw [Nat.mul_comm, Nat.add_comm]
      _ = v := by
          have h := Nat.ofDigits_eq_foldr b (Nat.digits b v)
          rw [Nat.ofDigits_digits] at h
          exact h.symm

theorem numeral_lt {b v d : Nat} (hb : 2 ≤ b) (hd : d ∈ numeral b v) : d < b := by
  rw [numeral] at hd
  split at hd
  · rw [List.mem_singleton] at hd
    omega
  · exact Nat.digits_lt_base hb (List.mem_reverse.mp hd)

theorem numeral_ne_nil (b v : Nat) : numeral b v ≠ [] := by
  rw [numeral]
  split
  · exact List.cons_ne_nil _ _
  · next hne => exact fun h => hne (Nat.digits_eq_nil_iff_eq_zero.mp (List.reverse_eq_nil_iff.mp h))

theorem numeral_zero_cons {b v : Nat} {ds : List Nat} (h : numeral b v = 0 :: ds) : ds = [] := by
  rw [numeral] at h
  split at h
  · exact (List.cons.inj h).2.symm
  · next hne =>
      have hlast := Nat.getLast_digit_ne_zero b hne
      have hdigits : Nat.digits b v = ds.reverse ++ [0] := by
        rw [← List.reverse_reverse (Nat.digits b v), h, List.reverse_cons]
      simp only [hdigits, List.getLast_append, List.getLast_singleton] at hlast
      exact absurd rfl hlast

/-! ## What is written -/

theorem processDigits_eq {radix : Nat} (integerToChar : List WChar) (hradix : 2 ≤ radix) :
    ∀ fuel input temp, input ≠ 0 → input < radix ^ fuel →
      processDigits integerToChar radix fuel input temp =
        (Nat.digits radix input).reverse.map (fun d => integerToChar.getD d 0) ++ temp := by
  intro fuel
  induction fuel with
  | zero =>
      intro input temp hne hlt
      rw [pow_zero] at hlt
      omega
  | succ fuel ih =>
      intro input temp hne hlt
      have hdigits := Nat.digits_def' hradix (Nat.pos_of_ne_zero hne)
      rw [processDigits, hdigits, List.reverse_cons, List.map_append, List.append_assoc]
      split
      · next hrest =>
          rw [ih _ _ hrest (Nat.div_lt_of_lt_mul (by rw [← pow_succ']; exact hlt))]
          rfl
      · next hrest =>
          rw [not_not.mp hrest, Nat.digits_zero]
          rfl

/-- The flags ask for the digits and nothing else, in the given base. -/
structure PlainFormat (format : PhFormat Single Double) (radix : Nat) : Prop where
  upperCase : hasFlag format.flags formatUpperCase = false
  groupDigits : hasFlag format.flags formatGroupDigits = false
  padZeros : hasFlag format.flags formatPadZeros = false
  prefixSign : hasFlag format.flags formatPrefixSign = false
  unaligned : aligned format = false
  radix_eq :
    (if hasFlag format.flags formatUseRadix ∧ 2 ≤ format.radix ∧ format.radix ≤ 69 then
      format.radix else 10) = radix
  two_le : 2 ≤ radix

theorem integerText_eq {format : PhFormat Single Double} {radix : Nat}
    (h : PlainFormat format radix) (negative : Bool) {input : Nat} (hinput : input < 2 ^ 64) :
    integerText env format negative input =
      signChars negative false ++ (numeral radix input).map digitChar := by
  have hdigits : integerDigits env format input = (numeral radix input).map digitChar := by
    rw [integerDigits, h.radix_eq, numeral]
    by_cases hzero : input = 0
    · rw [if_neg (not_not.mpr hzero), if_pos hzero]
      rfl
    · rw [if_pos hzero, if_neg hzero]
      simp only [h.upperCase, h.groupDigits, if_neg Bool.false_ne_true]
      rw [processDigits_eq _ h.two_le _ _ _ hzero
        (hinput.trans_le (Nat.pow_le_pow_left h.two_le 64)), List.append_nil]
      rfl
  have hpad : ∀ width count, padCount false width count = 0 := fun width count =>
    if_neg fun hpad => Bool.false_ne_true hpad.1
  simp only [integerText, hdigits, h.prefixSign, h.padZeros, Bool.false_and, hpad,
    List.replicate_zero, List.append_nil]

/-! ## What is read -/

theorem charToInteger_digitChar : ∀ d < 69, charToInteger (digitChar d) = d := by decide

theorem digitChar_sign : ∀ d < 69, (digitChar d = 0x2b ↔ d = 47) ∧ (digitChar d = 0x2d ↔ d = 49) := by
  decide

theorem digitChar_zero : ∀ d < 69, digitChar d = 0x30 ↔ d = 0 := by decide

theorem stringToInteger64Loop_digits {base : Nat} (hbase : base ≤ 69) (valid : Bool)
    (ds : List Nat) (hds : ∀ d ∈ ds, d < base) :
    ∀ n, stringToInteger64Loop base (ds.map digitChar) valid (BitVec.ofNat 64 n) =
      (valid, BitVec.ofNat 64 (horner base ds n)) := by
  induction ds with
  | nil => intro n; rfl
  | cons d ds ih =>
      intro n
      have hd := hds d List.mem_cons_self
      rw [List.map_cons, stringToInteger64Loop, charToInteger_digitChar d (by omega), if_pos hd,
        ← BitVec.ofNat_mul, ← BitVec.ofNat_add,
        ih (fun d hd => hds d (List.mem_cons_of_mem _ hd)), horner_cons]

theorem phpStringToInteger64_digits {base : Nat} (hbase : base ≤ 69) {ds : List Nat}
    (hds : ∀ d ∈ ds, d < base) :
    phpStringToInteger64 (ds.map digitChar) base = (true, BitVec.ofNat 64 (horner base ds 0)) :=
  stringToInteger64Loop_digits hbase true ds hds 0

def radixOf (base : Nat) : Nat := if base = 0 then 10 else base

theorem radixOf_bounds {base : Nat} (hbase : base = 0 ∨ 2 ≤ base ∧ base ≤ 69) :
    2 ≤ radixOf base ∧ radixOf base ≤ 69 := by
  rw [radixOf]
  split <;> omega

theorem inferBase_numeral (base v : Nat) :
    inferBase ((numeral (radixOf base) v).map digitChar) base =
      (radixOf base, (numeral (radixOf base) v).map digitChar) := by
  rw [inferBase.eq_def, radixOf]
  by_cases hzero : base = 0
  · rw [if_neg (not_not.mpr hzero), if_pos hzero]
    cases hds : numeral 10 v with
    | nil => rfl
    | cons d ds =>
        cases ds with
        | nil => rfl
        | cons e ds =>
            have hd : d ≠ 0 := fun h => List.cons_ne_nil e ds (numeral_zero_cons (h ▸ hds))
            have hlt : d < 10 := numeral_lt (by decide) (by rw [hds]; exact List.mem_cons_self)
            have hchar : ¬ digitChar d = 0x30 := fun h => hd ((digitChar_zero d (by omega)).mp h)
            exact if_neg fun h => hchar h.1
  · rw [if_pos hzero, if_neg hzero]

theorem phStringToInteger64_digits {base : Nat} (hbase : base = 0 ∨ 2 ≤ base ∧ base ≤ 69)
    {string : List WChar} {ds : List Nat} {negative : Bool}
    (hds : ∀ d ∈ ds, d < radixOf base)
    (hsign : skipSign string = (negative, ds.map digitChar))
    (hinfer : inferBase (ds.map digitChar) base = (radixOf base, ds.map digitChar)) :
    phStringToInteger64 string base = (true, some
      (if negative then -BitVec.ofNat 64 (horner (radixOf base) ds 0)
        else BitVec.ofNat 64 (horner (radixOf base) ds 0))) ∧
    phStringToUInt64 string base =
      (true, some (BitVec.ofNat 64 (horner (radixOf base) ds 0))) := by
  have hle : ¬ 69 < base := by omega
  have hparse := phpStringToInteger64_digits (radixOf_bounds hbase).2 hds
  constructor
  · rw [phStringToInteger64, if_neg hle]
    simp only [hsign, hinfer, hparse]
  · rw [phStringToUInt64, if_neg hle]
    simp only [hsign, hinfer, hparse]

/-! ## Both together -/

theorem phFormat_chars (formats : List (PhFormat Single Double)) (initialCapacity : Nat) :
    (phFormat env formats initialCapacity).chars = formatText env formats := by
  obtain ⟨hlength, hbuffer⟩ := phFormat_text env formats initialCapacity
  rw [PhString.chars, hlength, Nat.mul_div_cancel_left _ (by decide)]
  refine List.ext_getElem (by rw [List.length_map, List.length_range]) fun i hi hi' => ?_
  rw [List.getElem_map, List.getElem_range, hbuffer, List.getElem?_append_left hi',
    List.getElem?_eq_getElem hi', Option.getD_some]

theorem partText_integer {format : PhFormat Single Double} {radix : Nat}
    (h : PlainFormat format radix) {negative : Bool} {input : Nat} (hinput : input < 2 ^ 64)
    (hvalue : valueText env format = .whole (integerText env format negative input)) :
    partText env format =
      signChars negative false ++ (numeral radix input).map digitChar := by
  rw [partText, alignText, h.unaligned, if_neg Bool.false_ne_true, hvalue, PartText.all_whole,
    integerText_eq h negative hinput]

theorem hasFlag_zero (flag : ULong) : hasFlag 0 flag = false := by
  simp [hasFlag]

theorem plainFormat_decimal (u : PhFormatUnion Single Double) :
    PlainFormat ⟨0, 0, 0, 0, 0, u⟩ 10 :=
  ⟨hasFlag_zero _, hasFlag_zero _, hasFlag_zero _, hasFlag_zero _, hasFlag_zero _,
    if_neg fun h => Bool.false_ne_true ((hasFlag_zero _).symm.trans h.1), by decide⟩

theorem plainFormat_radix {radix : Nat} (hradix : 2 ≤ radix ∧ radix ≤ 69)
    (u : PhFormatUnion Single Double) : PlainFormat ⟨formatUseRadix, 0, 0, 0, radix, u⟩ radix := by
  have hupper : hasFlag formatUseRadix formatUpperCase = false := by decide
  have hgroup : hasFlag formatUseRadix formatGroupDigits = false := by decide
  have hzeros : hasFlag formatUseRadix formatPadZeros = false := by decide
  have hsign : hasFlag formatUseRadix formatPrefixSign = false := by decide
  have halign : hasFlag formatUseRadix (formatLeftAlign ||| formatRightAlign) = false := by decide
  have hflag : hasFlag formatUseRadix formatUseRadix = true := by decide
  exact ⟨hupper, hgroup, hzeros, hsign, halign, if_pos ⟨hflag, hradix⟩, hradix.1⟩

theorem signed_lt {w : Nat} (hw : w ≤ 64) (v : BitVec w) : (signed v).2 < 2 ^ 64 := by
  have hpow : 2 ^ w ≤ 2 ^ 64 := Nat.pow_le_pow_right (by decide) hw
  rw [signed]
  dsimp only
  split
  · exact (-v).isLt.trans_le hpow
  · exact v.isLt.trans_le hpow

theorem phIntegerToString64_text (env : FormatEnv Single Double) {base : Nat}
    (hbase : base = 0 ∨ 2 ≤ base ∧ base ≤ 69) (v : BitVec 64) (isSigned : Bool) :
    ∃ string, phIntegerToString64 env v base isSigned = some string ∧
      string.chars = signChars (isSigned && v.msb) false ++
        (numeral (radixOf base) (if isSigned then (signed v).2 else v.toNat)).map digitChar := by
  have hplain : ∀ u : PhFormatUnion Single Double,
      PlainFormat (if base ≠ 0 then ⟨0 ||| formatUseRadix, 0, 0, 0, base, u⟩
        else ⟨0, 0, 0, 0, 0, u⟩) (radixOf base) := by
    intro u
    rw [radixOf]
    by_cases hzero : base = 0
    · rw [if_neg (not_not.mpr hzero), if_pos hzero]
      exact plainFormat_decimal u
    · rw [if_pos hzero, if_neg hzero]
      exact plainFormat_radix (by omega) u
  rw [phIntegerToString64, if_neg (by omega)]
  refine ⟨_, rfl, ?_⟩
  rw [phFormat_chars, formatText, List.flatMap_singleton]
  cases isSigned with
  | true =>
      refine partText_integer (hplain (.int64 v)) (signed_lt le_rfl v) ?_
      split <;> rfl
  | false =>
      refine partText_integer (hplain (.uInt64 v)) v.isLt ?_
      split <;> rfl

/-! ## Numbers that begin with a sign -/

/-- The most significant digit is written as `+` or `-`. -/
def BeginsWithSign (base v : Nat) : Prop :=
  (numeral (radixOf base) v).head? = some 47 ∨ (numeral (radixOf base) v).head? = some 49

instance (base v : Nat) : Decidable (BeginsWithSign base v) :=
  inferInstanceAs (Decidable (_ ∨ _))

theorem skipSign_digits {d : Nat} (hd : d < 69) (ds : List Nat) :
    skipSign ((d :: ds).map digitChar) =
      if d = 47 ∨ d = 49 then (decide (d = 49), ds.map digitChar)
      else (false, (d :: ds).map digitChar) := by
  obtain ⟨hplus, hminus⟩ := digitChar_sign d hd
  rw [List.map_cons, skipSign]
  simp only [hplus, hminus]
  by_cases h : d = 47 ∨ d = 49
  · rw [if_pos h, if_pos h.symm]
  · rw [if_neg h, if_neg fun h' => h h'.symm]

theorem skipSign_numeral {b : Nat} (hlow : 2 ≤ b) (hhigh : b ≤ 47) (v : Nat) :
    skipSign ((numeral b v).map digitChar) = (false, (numeral b v).map digitChar) := by
  have hlt : ∀ d ∈ numeral b v, d < b := fun d hd => numeral_lt hlow hd
  cases hds : numeral b v with
  | nil => rfl
  | cons d ds =>
      have hd := hlt d (by rw [hds]; exact List.mem_cons_self)
      rw [skipSign_digits (by omega), if_neg (by omega)]

theorem numeral_cons {b v d : Nat} {ds : List Nat} (h : numeral b v = d :: ds) :
    v = d * b ^ ds.length + horner b ds 0 := by
  rw [← horner_numeral b v, h, horner_cons, Nat.zero_mul, Nat.zero_add, horner_eq]

/-- In the bases that have the digit 49, no power is such that negating what follows the digit
gives the number back. -/
theorem no_repair {b k r : Nat} (hlow : 50 ≤ b) (hhigh : b ≤ 69) (hr : r < b ^ k)
    (hsum : 49 * b ^ k + r + r = 2 ^ 64) : False := by
  have htable : ∀ b < 70, 50 ≤ b → ∀ k < 12,
      ¬ (49 * b ^ k ≤ 2 ^ 64 ∧ 2 ^ 64 < 51 * b ^ k ∧ 49 * b ^ k % 2 = 0) := by decide +kernel
  have hk : k < 12 := by
    by_contra hge
    have hpow : 50 ^ 12 ≤ b ^ k :=
      (Nat.pow_le_pow_left hlow 12).trans (Nat.pow_le_pow_right (by omega) (by omega))
    have hbig : 2 ^ 64 < 49 * 50 ^ 12 := by decide
    omega
  exact htable b (by omega) hlow k hk ⟨by omega, by omega, by omega⟩

theorem sum_of_neg_eq {v : BitVec 64} {r : Nat} (hr : r < 2 ^ 64) (h : -BitVec.ofNat 64 r = v)
    (hpos : 0 < v.toNat) : v.toNat + r = 2 ^ 64 := by
  have hzero : v + BitVec.ofNat 64 r = 0 := by rw [← h, BitVec.add_left_neg]; rfl
  have hsum := congrArg BitVec.toNat hzero
  rw [BitVec.toNat_add, BitVec.toNat_ofNat, Nat.mod_eq_of_lt hr] at hsum
  have hv := v.isLt
  rw [show (0 : BitVec 64).toNat = 0 from rfl] at hsum
  omega

/-- What is claimed of an integer, a base and a signedness. -/
def RoundTrips (env : FormatEnv Single Double) (v : BitVec 64) (base : Nat) (isSigned : Bool) :
    Prop :=
  ∃ string, phIntegerToString64 env v base isSigned = some string ∧
    phStringToInteger64 string.chars base = (true, some v) ∧
    (isSigned = false → phStringToUInt64 string.chars base = (true, some v))

theorem roundTrips_negative {base : Nat} (hbase : base = 0 ∨ 2 ≤ base ∧ base ≤ 69) {v : BitVec 64}
    (hmsb : v.msb = true) : RoundTrips env v base true := by
  obtain ⟨string, hstring, hchars⟩ := phIntegerToString64_text env hbase v true
  have hvalue : (signed v).2 = (-v).toNat := by rw [signed, hmsb]; rfl
  rw [Bool.true_and, hmsb, if_pos rfl, hvalue] at hchars
  refine ⟨string, hstring, ?_, fun h => absurd h.symm Bool.false_ne_true⟩
  have hsign : skipSign string.chars =
      (true, (numeral (radixOf base) (-v).toNat).map digitChar) := by
    rw [hchars]
    rfl
  have hparse := (phStringToInteger64_digits hbase
    (fun d hd => numeral_lt (radixOf_bounds hbase).1 hd) hsign (inferBase_numeral base _)).1
  rw [hparse, if_pos rfl, horner_numeral, BitVec.ofNat_toNat, BitVec.setWidth_eq, BitVec.neg_neg]

theorem phIntegerToString64_unsigned {base : Nat} (hbase : base = 0 ∨ 2 ≤ base ∧ base ≤ 69)
    {v : BitVec 64} {isSigned : Bool} (h : ¬ (isSigned = true ∧ v.msb = true)) :
    ∃ string, phIntegerToString64 env v base isSigned = some string ∧
      string.chars = (numeral (radixOf base) v.toNat).map digitChar := by
  obtain ⟨string, hstring, hchars⟩ := phIntegerToString64_text env hbase v isSigned
  refine ⟨string, hstring, ?_⟩
  cases isSigned with
  | false => exact hchars
  | true =>
      have hmsb : v.msb = false := Bool.eq_false_iff.mpr fun hmsb => h ⟨rfl, hmsb⟩
      have hvalue : (signed v).2 = v.toNat := by rw [signed, hmsb]; rfl
      rw [Bool.true_and, hmsb, if_pos rfl, hvalue] at hchars
      exact hchars

theorem roundTrips_unsigned {base : Nat} (hbase : base = 0 ∨ 2 ≤ base ∧ base ≤ 69) {v : BitVec 64}
    {isSigned : Bool} (h : ¬ (isSigned = true ∧ v.msb = true)) :
    RoundTrips env v base isSigned ↔ ¬ BeginsWithSign base v.toNat := by
  obtain ⟨string, hstring, hchars⟩ :
      ∃ string, phIntegerToString64 env v base isSigned = some string ∧
        string.chars = (numeral (radixOf base) v.toNat).map digitChar :=
    phIntegerToString64_unsigned hbase h
  have hlt : ∀ d ∈ numeral (radixOf base) v.toNat, d < radixOf base := fun d hd =>
    numeral_lt (radixOf_bounds hbase).1 hd
  have hle := (radixOf_bounds hbase).2
  rw [BeginsWithSign]
  cases hds : numeral (radixOf base) v.toNat with
  | nil => exact absurd hds (numeral_ne_nil _ _)
  | cons d ds =>
      have hd : d < radixOf base := hlt d (by rw [hds]; exact List.mem_cons_self)
      have hskip := skipSign_digits (show d < 69 by omega) ds
      rw [← hds, ← hchars] at hskip
      rw [List.head?_cons, Option.some.injEq, Option.some.injEq]
      by_cases hsign : d = 47 ∨ d = 49
      · rw [if_pos hsign] at hskip
        have hne : base ≠ 0 := by
          intro hzero
          rw [radixOf, if_pos hzero] at hd
          omega
        have hradix : radixOf base = base := if_neg hne
        have hrest : ∀ e ∈ ds, e < radixOf base := fun e he =>
          hlt e (by rw [hds]; exact List.mem_cons_of_mem _ he)
        have hinfer : inferBase (ds.map digitChar) base = (radixOf base, ds.map digitChar) := by
          rw [inferBase.eq_def, if_pos hne, hradix]
        have hparse := (phStringToInteger64_digits hbase hrest hskip hinfer).1
        have hsum := numeral_cons hds
        have hless := horner_lt ds hrest
        refine iff_of_false ?_ (not_not.mpr hsign)
        rintro ⟨string', hstring', hback, -⟩
        cases hstring.symm.trans hstring'
        have heq := Option.some.inj (congrArg Prod.snd (hparse.symm.trans hback))
        have hr : horner (radixOf base) ds 0 < 2 ^ 64 :=
          Nat.lt_of_le_of_lt (hsum ▸ Nat.le_add_left _ _) v.isLt
        have hpos : 0 < v.toNat := hsum ▸ Nat.add_pos_left (Nat.mul_pos (by omega) (by omega)) _
        rcases hsign with rfl | rfl
        · rw [if_neg (by decide)] at heq
          have hback := congrArg BitVec.toNat heq
          rw [BitVec.toNat_ofNat, Nat.mod_eq_of_lt hr] at hback
          generalize radixOf base ^ ds.length = p at hsum hless
          omega
        · rw [if_pos (by decide)] at heq
          have hback := sum_of_neg_eq hr heq hpos
          rw [hsum] at hback
          exact no_repair (Nat.succ_le_of_lt hd) hle hless hback
      · rw [if_neg hsign] at hskip
        refine iff_of_true ⟨string, hstring, ?_⟩ hsign
        obtain ⟨hparse, hparse'⟩ := phStringToInteger64_digits hbase hlt
          (hskip.trans (congrArg (Prod.mk false) hchars)) (inferBase_numeral base v.toNat)
        rw [horner_numeral, BitVec.ofNat_toNat, BitVec.setWidth_eq] at hparse hparse'
        exact ⟨hparse, fun _ => hparse'⟩

/-- An integer is read back exactly when it is written with a minus sign or does not begin with
a digit that is written as a sign. -/
theorem phIntegerToString64_roundTrips (env : FormatEnv Single Double) (v : BitVec 64) {base : Nat}
    (hbase : base = 0 ∨ 2 ≤ base ∧ base ≤ 69) (isSigned : Bool) :
    RoundTrips env v base isSigned ↔
      (isSigned = true ∧ v.msb = true) ∨ ¬ BeginsWithSign base v.toNat := by
  by_cases h : isSigned = true ∧ v.msb = true
  · obtain ⟨rfl, hmsb⟩ := h
    exact iff_of_true (roundTrips_negative hbase hmsb) (Or.inl ⟨rfl, hmsb⟩)
  · rw [roundTrips_unsigned hbase h]
    exact (or_iff_right h).symm

/-- The digit 47 of base 48 is read as a sign with nothing behind it. -/
theorem phIntegerToString64_loses : ¬ RoundTrips wholeNumbers 47 48 false := by
  rintro ⟨string, hstring, hback, -⟩
  cases hstring
  exact absurd hback (by decide +kernel)

/-- Two numbers of base 69, one with the minus sign that it needs. -/
theorem phIntegerToString64_roundTrips_base69 :
    RoundTrips wholeNumbers (-47) 69 true ∧ ¬ RoundTrips wholeNumbers (47 * 69 + 5) 69 false :=
  ⟨(phIntegerToString64_roundTrips wholeNumbers (-47) (by decide) true).mpr (Or.inl (by decide)),
    fun h => ((phIntegerToString64_roundTrips wholeNumbers (47 * 69 + 5) (by decide) false).mp h).elim
      (fun hno => Bool.false_ne_true hno.1) (fun hno => hno (by decide +kernel))⟩

end SystemInformer.PhLib
