import SystemInformer.Proofs.StringInteger

/-!
# What an integer is formatted to

The digits are taken off a number from the last one on and written from the end of the temporary
buffer to its beginning, so the text grows at its front. Grouped, it is a list of groups with a
separator between any two: a digit goes to the front of the first group, and a group that has
three digits gets an empty one before it, as long as digits are to come (`Grouped`). So all
groups but the first have three digits, and taking the separators out leaves the digits. In radix
37 and above a digit can look like a separator, so that is said of the groups and not of the
characters.

A number of 64 bits has at most 64 digits in any radix, and a group of three needs one separator,
which is far from the end of the buffer.
-/

namespace SystemInformer.PhLib

variable {σ Single Double : Type}

/-! ## The specification -/

def integerValue : PhFormatUnion Single Double → Option Int
  | .int32 v => some v.toInt
  | .int64 v => some v.toInt
  | .intPtr v => some v.toInt
  | .uInt32 v => some v.toNat
  | .uInt64 v => some v.toNat
  | .uIntPtr v => some v.toNat
  | _ => none

def formatRadix (format : PhFormat Single Double) : Nat :=
  if hasFlag format.flags formatUseRadix ∧ 2 ≤ format.radix ∧ format.radix ≤ 69 then
    format.radix
  else 10

def formatDigit (format : PhFormat Single Double) (digit : Nat) : WChar :=
  (if hasFlag format.flags formatUpperCase then phIntegerToCharUpper
    else phIntegerToChar).getD digit 0

/-- The digits of a number in the radix of a format, without leading zeros. -/
def canonicalDigits (format : PhFormat Single Double) (n : Nat) : List WChar :=
  (numeral (formatRadix format) n).map (formatDigit format)

/-- A separator stands between any two groups of three digits, counted from the right. -/
def Grouped (separator : WChar) (digits text : List WChar) : Prop :=
  ∃ first rest, text = [separator].intercalate (first :: rest) ∧
    (first :: rest).flatten = digits ∧ first ≠ [] ∧ first.length ≤ 3 ∧
    ∀ g ∈ rest, g.length = 3

structure IntegerParts where
  sign : List WChar
  zeros : List WChar
  number : List WChar

/-- What the parts of an integer have to be. -/
structure Specified (env : FormatEnv Single Double) (format : PhFormat Single Double)
    (value : Int) (p : IntegerParts) : Prop where
  sign_eq : p.sign =
    if value < 0 then [0x2d]
    else if hasFlag format.flags formatPrefixSign then [0x2b]
    else []
  zeros_eq : p.zeros =
    if hasFlag format.flags formatPadZeros ∧ ¬ hasFlag format.flags formatGroupDigits then
      List.replicate
        (format.width - p.sign.length - (canonicalDigits format value.natAbs).length) 0x30
    else []
  number_eq : ¬ hasFlag format.flags formatGroupDigits →
    p.number = canonicalDigits format value.natAbs
  grouped : hasFlag format.flags formatGroupDigits →
    Grouped env.phpFormatThousandSeparator (canonicalDigits format value.natAbs) p.number
  number_le : p.number.length ≤ bufferSize

/-- A text is reserved, copied if that is fine, and counted. -/
def writeText (m : Macros σ) (text : List WChar) (s : Output σ) : Output σ :=
  let s := m.ensureBuffer (2 * text.length) s
  (if m.okBuffer s.own then s.put text else s).use (2 * text.length)

/-! ## The digits -/

theorem formatRadix_ge (format : PhFormat Single Double) : 2 ≤ formatRadix format := by
  rw [formatRadix]
  split
  · next h => exact h.2.1
  · decide

theorem numeral_of_ne {b v : Nat} (h : v ≠ 0) : numeral b v = (Nat.digits b v).reverse := if_neg h

theorem length_numeral_le {b v n : Nat} (hb : 2 ≤ b) (hv : v < 2 ^ n) (hn : n ≠ 0) :
    (numeral b v).length ≤ n := by
  rcases Nat.eq_zero_or_pos v with hzero | hpos
  · rw [numeral, if_pos hzero, List.length_singleton]
    omega
  · rw [numeral_of_ne (Nat.ne_of_gt hpos), List.length_reverse]
    exact (Nat.digits_length_le_iff hb v).mpr (hv.trans_le (Nat.pow_le_pow_left hb n))

theorem processGroupedDigits_eq {radix : Nat} (integerToChar : List WChar) (separator : WChar)
    (hradix : 2 ≤ radix) :
    ∀ fuel input group groups, input ≠ 0 → input < radix ^ fuel → group.length < 3 →
      (∀ g ∈ groups, g.length = 3) →
      Grouped separator
        ((Nat.digits radix input).reverse.map (fun d => integerToChar.getD d 0) ++
          (group :: groups).flatten)
        (processGroupedDigits integerToChar separator radix fuel group.length input
          ([separator].intercalate (group :: groups))) := by
  intro fuel
  induction fuel with
  | zero =>
      intro input group groups hne hlt
      rw [pow_zero] at hlt
      omega
  | succ fuel ih =>
      intro input group groups hne hlt hgroup hgroups
      -- The digit is the first character of the first group.
      have hdigit : integerToChar.getD (input % radix) 0 ::
            [separator].intercalate (group :: groups) =
          [separator].intercalate
            ((integerToChar.getD (input % radix) 0 :: group) :: groups) :=
        List.intercalate_cons_cons_left.symm
      have hdigits := Nat.digits_def' hradix (Nat.pos_of_ne_zero hne)
      rw [processGroupedDigits, hdigit, hdigits, List.reverse_cons, List.map_append,
        List.append_assoc]
      split
      · next hrest =>
          have hlt' : input / radix < radix ^ fuel :=
            Nat.div_lt_of_lt_mul (by rw [← pow_succ']; exact hlt)
          split
          · next hfull =>
              -- The group is full, and an empty one begins behind the separator.
              have h := ih (input / radix) []
                ((integerToChar.getD (input % radix) 0 :: group) :: groups) hrest hlt'
                (by decide) (List.forall_mem_cons.mpr ⟨hfull, hgroups⟩)
              rw [List.intercalate_cons_cons] at h
              exact h
          · next hfull =>
              exact ih (input / radix) (_ :: group) groups hrest hlt'
                (by rw [List.length_cons]; omega) hgroups
      · next hrest =>
          rw [not_not.mp hrest, Nat.digits_zero]
          exact ⟨_, groups, rfl, rfl, List.cons_ne_nil _ _, hgroup, hgroups⟩

theorem length_intercalate (separator : WChar) (first : List WChar)
    (rest : List (List WChar)) :
    ([separator].intercalate (first :: rest)).length =
      (first :: rest).flatten.length + rest.length := by
  induction rest generalizing first with
  | nil =>
      rw [List.intercalate_singleton, List.flatten_cons, List.flatten_nil, List.append_nil,
        List.length_nil, Nat.add_zero]
  | cons g rest ih =>
      have hflatten : (first :: g :: rest).flatten.length =
          first.length + (g :: rest).flatten.length := by
        rw [List.flatten_cons, List.length_append]
      rw [List.intercalate_cons_cons, List.length_append, List.length_append, ih, hflatten,
        List.length_singleton, List.length_cons]
      omega

theorem Grouped.length_le {separator : WChar} {digits text : List WChar}
    (h : Grouped separator digits text) : text.length ≤ 2 * digits.length := by
  obtain ⟨first, rest, rfl, rfl, -, -, hrest⟩ := h
  have hlength : rest.length ≤ rest.flatten.length := by
    clear first
    induction rest with
    | nil => exact Nat.le_refl 0
    | cons g rest ih =>
        obtain ⟨hg, hrest⟩ := List.forall_mem_cons.mp hrest
        rw [List.flatten_cons, List.length_append, List.length_cons]
        have := ih hrest
        omega
  rw [length_intercalate, List.flatten_cons, List.length_append]
  omega

theorem integerDigits_spec (env : FormatEnv Single Double) (format : PhFormat Single Double)
    {input : Nat} (hinput : input < 2 ^ 64) :
    (¬ hasFlag format.flags formatGroupDigits →
      integerDigits env format input = canonicalDigits format input) ∧
    (hasFlag format.flags formatGroupDigits →
      Grouped env.phpFormatThousandSeparator (canonicalDigits format input)
        (integerDigits env format input)) := by
  have hradix := formatRadix_ge format
  have hfuel : input < formatRadix format ^ 64 :=
    hinput.trans_le (Nat.pow_le_pow_left hradix 64)
  by_cases hzero : input = 0
  · have hdigits : canonicalDigits format 0 = [0x30] := by
      rw [canonicalDigits, numeral, if_pos rfl, List.map_singleton, formatDigit]
      cases hasFlag format.flags formatUpperCase <;> rfl
    rw [hzero, hdigits, integerDigits]
    exact ⟨fun _ => rfl, fun _ => ⟨[0x30], [], rfl, rfl, by decide, by decide, by simp⟩⟩
  · have hdigits : canonicalDigits format input =
        (Nat.digits (formatRadix format) input).reverse.map (formatDigit format) := by
      rw [canonicalDigits, numeral_of_ne hzero]
    rw [hdigits, integerDigits]
    constructor
    · intro hgroup
      simp only [if_pos hzero, if_neg hgroup]
      exact (processDigits_eq _ hradix 64 input [] hzero hfuel).trans (List.append_nil _)
    · intro hgroup
      simp only [if_pos hzero, if_pos hgroup]
      have h := processGroupedDigits_eq
        (if hasFlag format.flags formatUpperCase then phIntegerToCharUpper else phIntegerToChar)
        env.phpFormatThousandSeparator hradix 64 input [] [] hzero hfuel (by decide) (by simp)
      rw [List.flatten_cons, List.flatten_nil, List.append_nil, List.append_nil] at h
      exact h

/-! ## The part -/

theorem put_append (s : Output σ) (a b : List WChar) : (s.put a).put b = s.put (a ++ b) := by
  have hbuffer : ((s.put a).put b).buffer = (s.put (a ++ b)).buffer := by
    show s.buffer + a.length + b.length = s.buffer + (a ++ b).length
    rw [List.length_append, Nat.add_assoc]
  have hmemory : ((s.put a).put b).memory = (s.put (a ++ b)).memory := by
    funext i
    show (if s.buffer + a.length ≤ i ∧ i < s.buffer + a.length + b.length then
        b[i - (s.buffer + a.length)]?
      else if s.buffer ≤ i ∧ i < s.buffer + a.length then a[i - s.buffer]? else s.memory i) =
      if s.buffer ≤ i ∧ i < s.buffer + (a ++ b).length then (a ++ b)[i - s.buffer]?
      else s.memory i
    rw [List.length_append]
    by_cases hb : s.buffer + a.length ≤ i ∧ i < s.buffer + a.length + b.length
    · rw [if_pos hb, if_pos (by omega), List.getElem?_append_right (by omega)]
      congr 1
      omega
    · rw [if_neg hb]
      by_cases ha : s.buffer ≤ i ∧ i < s.buffer + a.length
      · rw [if_pos ha, if_pos (by omega), List.getElem?_append_left (by omega)]
      · rw [if_neg ha, if_neg (by omega)]
  calc (s.put a).put b
      = ⟨((s.put a).put b).memory, ((s.put a).put b).buffer, s.usedLength, s.own⟩ := rfl
    _ = s.put (a ++ b) := by rw [hmemory, hbuffer]; rfl

/-- The sign, the zeros and the digits of a number. -/
def integerParts (env : FormatEnv Single Double) (format : PhFormat Single Double)
    (negative : Bool) (input : Nat) : IntegerParts where
  sign := signChars negative (hasFlag format.flags formatPrefixSign)
  zeros := List.replicate
    (padCount (hasFlag format.flags formatPadZeros && !hasFlag format.flags formatGroupDigits)
      format.width ((signChars negative (hasFlag format.flags formatPrefixSign)).length +
        (integerDigits env format input).length)) 0x30
  number := integerDigits env format input

theorem commonIntegerFormat_eq (m : Macros σ) (env : FormatEnv Single Double)
    (format : PhFormat Single Double) (negative : Bool) (input : Nat) (s : Output σ) :
    commonIntegerFormat m env format negative input s =
      writeText m ((integerParts env format negative input).sign ++
        (integerParts env format negative input).zeros ++
        (integerParts env format negative input).number) s := by
  simp only [commonIntegerFormat, writeText, put_append, integerParts, List.length_append,
    List.length_replicate]

theorem integerParts_specified (env : FormatEnv Single Double) (format : PhFormat Single Double)
    {value : Int} {negative : Bool} {input : Nat} (hsign : negative = decide (value < 0))
    (hinput : input = value.natAbs) (hlt : input < 2 ^ 64) :
    Specified env format value (integerParts env format negative input) := by
  obtain ⟨hplain, hgrouped⟩ := integerDigits_spec env format hlt
  subst hsign hinput
  constructor
  · show signChars _ _ = _
    rw [signChars]
    simp only [decide_eq_true_eq]
  · show List.replicate (padCount _ _ _) _ = _
    rw [padCount]
    by_cases hzeros :
        hasFlag format.flags formatPadZeros ∧ ¬ hasFlag format.flags formatGroupDigits
    · rw [if_pos hzeros, hplain hzeros.2]
      simp only [hzeros.1, Bool.not_eq_true _ ▸ hzeros.2, Bool.not_false, Bool.and_self, true_and,
        integerParts]
      split
      · rw [Nat.sub_sub]
      · rw [show format.width - _ - _ = 0 by omega]
    · rw [if_neg hzeros, if_neg, List.replicate_zero]
      intro h
      simp only [Bool.and_eq_true, Bool.not_eq_true'] at h
      exact hzeros ⟨h.1.1, by rw [h.1.2]; decide⟩
  · exact hplain
  · exact hgrouped
  · have hlength : (canonicalDigits format value.natAbs).length ≤ 64 := by
      rw [canonicalDigits, List.length_map]
      exact length_numeral_le (formatRadix_ge format) hlt (by decide)
    show (integerDigits env format value.natAbs).length ≤ 512
    by_cases hgroup : hasFlag format.flags formatGroupDigits
    · have := (hgrouped hgroup).length_le
      omega
    · rw [hplain hgroup]
      omega

theorem signed_spec {w : Nat} (v : BitVec w) :
    (signed v).1 = decide (v.toInt < 0) ∧ (signed v).2 = v.toInt.natAbs := by
  have hint := BitVec.toInt_eq_msb_cond v
  have habs := BitVec.toNat_abs (x := v)
  rw [BitVec.abs_eq] at habs
  have hlt := v.isLt
  rw [signed]
  cases hmsb : v.msb with
  | true =>
      rw [hmsb] at hint habs
      simp only [if_true] at hint habs ⊢
      rw [habs, decide_eq_true (by omega)]
      exact ⟨rfl, by omega⟩
  | false =>
      rw [hmsb] at hint
      simp only [Bool.false_eq_true, if_false] at hint ⊢
      rw [decide_eq_false (by omega)]
      exact ⟨rfl, by omega⟩

/-- An integer is written as its sign, its zeros and its digits, with the separators if it is
grouped, and its digits fit into the temporary buffer. -/
theorem formatValue_integer (m : Macros σ) (env : FormatEnv Single Double)
    (format : PhFormat Single Double) (s : Output σ) {value : Int}
    (hvalue : integerValue format.u = some value) :
    ∃ p : IntegerParts, Specified env format value p ∧
      formatValue m env format s = writeText m (p.sign ++ p.zeros ++ p.number) s := by
  have hsigned : ∀ {w : Nat} (v : BitVec w), w ≤ 64 → v.toInt = value →
      ∃ p : IntegerParts, Specified env format value p ∧
        commonIntegerFormat m env format (signed v).1 (signed v).2 s =
          writeText m (p.sign ++ p.zeros ++ p.number) s := by
    intro w v hw hv
    obtain ⟨hsign, hinput⟩ := signed_spec v
    rw [hv] at hsign hinput
    have hlt : (signed v).2 < 2 ^ 64 := by
      have hle := (-v).isLt
      have hle' := v.isLt
      have hpow := Nat.pow_le_pow_right (show 0 < 2 by decide) hw
      rw [signed]
      show (if _ then _ else _) < _
      split <;> omega
    exact ⟨_, integerParts_specified env format hsign hinput hlt,
      commonIntegerFormat_eq m env format _ _ s⟩
  have hunsigned : ∀ {w : Nat} (v : BitVec w), w ≤ 64 → (v.toNat : Int) = value →
      ∃ p : IntegerParts, Specified env format value p ∧
        commonIntegerFormat m env format false v.toNat s =
          writeText m (p.sign ++ p.zeros ++ p.number) s := by
    intro w v hw hv
    have hlt := v.isLt.trans_le (Nat.pow_le_pow_right (show 0 < 2 by decide) hw)
    exact ⟨_, integerParts_specified env format
        (by rw [decide_eq_false (by omega)]) (by omega) hlt,
      commonIntegerFormat_eq m env format _ _ s⟩
  rw [formatValue]
  cases hu : format.u <;> rw [hu] at hvalue <;> simp only [integerValue, Option.some.injEq,
    reduceCtorEq] at hvalue ⊢
  case int32 v => exact hsigned v (by decide) hvalue
  case int64 v => exact hsigned v (by decide) hvalue
  case intPtr v => exact hsigned v (by decide) hvalue
  case uInt32 v => exact hunsigned v (by decide) hvalue
  case uInt64 v => exact hunsigned v (by decide) hvalue
  case uIntPtr v => exact hunsigned v (by decide) hvalue

theorem formatValue_integer_intMin :
    ∃ p : IntegerParts,
      Specified wholeNumbers ⟨formatGroupDigits, 0, 0, 0, 0, .int32 0x80000000⟩
        (-2147483648) p ∧
      formatValue stringMacros wholeNumbers
          ⟨formatGroupDigits, 0, 0, 0, 0, .int32 0x80000000⟩ ⟨fun _ => none, 0, 0, 30⟩ =
        writeText stringMacros (p.sign ++ p.zeros ++ p.number) ⟨fun _ => none, 0, 0, 30⟩ :=
  formatValue_integer _ _ _ _ (by decide)

example :
    integerDigits wholeNumbers ⟨formatGroupDigits, 0, 0, 0, 0, .uInt32 12345⟩ 12345 =
      [0x31, 0x32, 0x2c, 0x33, 0x34, 0x35] := by
  decide

end SystemInformer.PhLib
