import SystemInformer.Base.Nt
import SystemInformer.PhLib.Format

/-!
# The two formatting functions agree, when no number is cut off

What a list of parts is formatted to is a string that does not depend on a buffer: `formatText`.
As long as every reservation succeeds, the buffer holds the text of the parts so far and both
counters are at its end, whichever macros are used (`Holds`); resizing keeps that, so `PhFormat`
returns the text.

`PhFormatToBuffer` goes on counting after a reservation has failed (`Overrun`). All parts but one
kind count then what they would have written. A rendered number is counted in two pieces, and the
second, from the decimal point on when digits are grouped and otherwise all digits, only if it is
copied. So the count is right exactly when every number either fits or leaves nothing out, or is
aligned in a width that covers what it left out.

A buffer of one byte is terminated with a character of two.
-/

namespace SystemInformer.PhLib

variable {σ Single Double : Type}

/-! ## What the parts stand for -/

/-- The text of a part: what a failed first reservation leaves out is `tail`, and `unit` is
reserved by itself. -/
structure PartText where
  head : List WChar
  tail : List WChar
  unit : List WChar

namespace PartText

def all (p : PartText) : List WChar := p.head ++ p.tail ++ p.unit

def first (p : PartText) : Nat := p.head.length + p.tail.length

/-- The number of characters that are counted when the first reservation fails. -/
def counted (p : PartText) : Nat := p.head.length + p.unit.length

/-- A text that is reserved at once and counted in full. -/
def whole (text : List WChar) : PartText := ⟨text, [], []⟩

@[simp] theorem all_whole (text : List WChar) : (whole text).all = text := by
  rw [whole, all, List.append_nil, List.append_nil]

end PartText

def integerText (env : FormatEnv Single Double) (format : PhFormat Single Double)
    (negative : Bool) (input : Nat) : List WChar :=
  let temp := integerDigits env format input
  let sign := signChars negative (hasFlag format.flags formatPrefixSign)
  let zeros :=
    padCount (hasFlag format.flags formatPadZeros && !hasFlag format.flags formatGroupDigits)
      format.width (sign.length + temp.length)
  sign ++ List.replicate zeros 0x30 ++ temp

def numberText (env : FormatEnv Single Double) (flags : ULong) (width : Nat)
    (rendered : List UInt8) : PartText :=
  let negative := (renderedNumber env flags rendered).1
  let temp := (renderedNumber env flags rendered).2
  let sign := signChars negative (hasFlag flags formatPrefixSign)
  if hasFlag flags formatGroupDigits ∧
      ¬ hasFlag flags (formatStandardForm ||| formatHexadecimalForm) then
    let whole := temp.takeWhile isDigit
    ⟨sign ++ copyGrouped env.phpFormatThousandSeparator ((whole.length + 2) % 3) whole,
      phZeroExtendToUtf16 (temp.dropWhile isDigit), []⟩
  else
    let zeros := padCount (hasFlag flags formatPadZeros) width (sign.length + temp.length)
    ⟨sign ++ List.replicate zeros 0x30, phZeroExtendToUtf16 temp, []⟩

def sizeText (env : FormatEnv Single Double) (format : PhFormat Single Double)
    (size : BitVec 64) : PartText :=
  if size = 0 then .whole [0x30]
  else
    let scaled := scaledSize env format size
    { numberText env sizeFlags 0 scaled.2 with unit := 0x20 :: scaled.1 }

def multiByteText (env : FormatEnv Single Double) (bytes : List UInt8) : List WChar :=
  let bytes := bytes.take (bytes.length % 2 ^ 32)
  match env.rtlMultiByteToUnicodeSize bytes with
  | none => []
  | some _ => (env.rtlMultiByteToUnicodeN bytes).getD []

def valueText (env : FormatEnv Single Double) (format : PhFormat Single Double) : PartText :=
  match format.u with
  | .char c => .whole [c]
  | .string data => .whole data
  | .stringZ data => .whole (cString data)
  | .multiByteString length buffer =>
      .whole (multiByteText env (multiByteBytes env format.flags length buffer))
  | .multiByteStringZ bytes => .whole (multiByteText env (cString bytes))
  | .int32 v => .whole (integerText env format (signed v).1 (signed v).2)
  | .int64 v => .whole (integerText env format (signed v).1 (signed v).2)
  | .intPtr v => .whole (integerText env format (signed v).1 (signed v).2)
  | .uInt32 v => .whole (integerText env format false v.toNat)
  | .uInt64 v => .whole (integerText env format false v.toNat)
  | .uIntPtr v => .whole (integerText env format false v.toNat)
  | .single v =>
      numberText env format.flags format.width
        (env.phpFormatSingleToUtf8Locale v (singleFormatType ||| format.flags)
          (formatPrecision format.flags format.precision))
  | .double v =>
      numberText env format.flags format.width
        (env.phpFormatDoubleToUtf8Locale v (doubleFormatType ||| format.flags)
          (formatPrecision format.flags format.precision))
  | .size v => sizeText env format v
  | .other => .whole []

def aligned (format : PhFormat Single Double) : Bool :=
  hasFlag format.flags (formatLeftAlign ||| formatRightAlign)

def padChar (format : PhFormat Single Double) : WChar :=
  if hasFlag format.flags formatUsePad then format.pad else 0x20

def alignText (format : PhFormat Single Double) (text : List WChar) : List WChar :=
  if aligned format then
    let pads := List.replicate (format.width - text.length) (padChar format)
    if hasFlag format.flags formatLeftAlign then text ++ pads else pads ++ text
  else text

def partText (env : FormatEnv Single Double) (format : PhFormat Single Double) : List WChar :=
  alignText format (valueText env format).all

def formatText (env : FormatEnv Single Double) (formats : List (PhFormat Single Double)) :
    List WChar :=
  formats.flatMap (partText env)

/-! ## A buffer that holds a text -/

/-- The buffer holds the text and `buffer` is at its end; `used` bytes are counted. -/
structure Holds (m : Macros σ) (s : Output σ) (text : List WChar) (used : Nat) : Prop where
  memory : ∀ i, s.memory i = text[i]?
  buffer : s.buffer = text.length
  used : s.usedLength = used
  ok : m.okBuffer s.own = true

/-- Reservations that fit keep a settled buffer. -/
structure Lawful (m : Macros σ) (fits : Nat → Prop) : Prop where
  down : ∀ {j k}, j ≤ k → fits k → fits j
  ensure : ∀ {s text n}, Holds m s text (2 * text.length) → fits (2 * text.length + n) →
    Holds m (m.ensureBuffer n s) text (2 * text.length)

variable {m : Macros σ} {s : Output σ} {text data : List WChar} {used : Nat}
  {fits : Nat → Prop} {env : FormatEnv Single Double} {format : PhFormat Single Double}

theorem Holds.store (h : Holds m s text used) (i : Nat) :
    (s.store s.buffer data).memory i = (text ++ data)[i]? := by
  rw [Output.store_memory, h.buffer, List.getElem?_append]
  by_cases hlow : i < text.length
  · rw [if_pos hlow, if_neg (by omega), h.memory]
  · rw [if_neg hlow]
    split
    · rfl
    · next hout =>
        rw [h.memory, List.getElem?_eq_none (by omega), List.getElem?_eq_none (by omega)]

theorem Holds.put (h : Holds m s text used) (data : List WChar) :
    Holds m (s.put data) (text ++ data) used where
  memory := h.store
  buffer := by rw [Output.put, h.buffer, List.length_append]
  used := h.used
  ok := h.ok

theorem Holds.use (h : Holds m s text used) (n : Nat) : Holds m (s.use n) text (used + n) where
  memory := h.memory
  buffer := h.buffer
  used := congrArg (· + n) h.used
  ok := h.ok

theorem Holds.storeAdvance (h : Holds m s text used) (data : List WChar) :
    Holds m ((s.store s.buffer data).advance (2 * data.length)) (text ++ data)
      (used + 2 * data.length) where
  memory := h.store
  buffer := by
    rw [List.length_append, ← h.buffer, Output.advance, Output.store,
      Nat.mul_div_cancel_left _ (by decide)]
  used := congrArg (· + 2 * data.length) h.used
  ok := h.ok

theorem Holds.cast {used' : Nat} {text' : List WChar} (h : Holds m s text used)
    (htext : text = text') (hused : used = used') : Holds m s text' used' := by
  rw [← htext, ← hused]
  exact h

/-! ## The text of a number -/

theorem length_copyGrouped (separator : WChar) (whole : List UInt8) : ∀ k, k < 3 →
    (copyGrouped separator k whole).length = whole.length + (whole.length + 1 - k) / 3 := by
  induction whole with
  | nil =>
      intro k hk
      simp only [copyGrouped, List.length_nil]
      omega
  | cons c whole ih =>
      intro k hk
      rw [copyGrouped]
      split
      · next h =>
          have hne : 0 < whole.length := List.length_pos_iff.mpr h.2
          rw [List.length_cons, List.length_cons, List.length_cons, ih 2 (by decide), h.1]
          omega
      · next h =>
          rw [List.length_cons, List.length_cons, ih (k - 1) (by omega)]
          by_cases hk0 : k = 0
          · have hnil : whole = [] := by
              by_contra hne
              exact h ⟨hk0, hne⟩
            rw [hnil, hk0]
            decide
          · omega

theorem length_copyGrouped_whole (separator : WChar) (whole : List UInt8) :
    (copyGrouped separator ((whole.length + 2) % 3) whole).length =
      whole.length + if whole.length ≠ 0 then (whole.length + 2) / 3 - 1 else 0 := by
  rw [length_copyGrouped separator whole _ (Nat.mod_lt _ (by decide))]
  split <;> omega

theorem length_phZeroExtendToUtf16 (input : List UInt8) :
    (phZeroExtendToUtf16 input).length = input.length := List.length_map _

/-! ## One part, while everything fits -/

theorem copyFormat_holds (hm : Lawful m fits) (h : Holds m s text (2 * text.length))
    (hfits : fits (2 * (text ++ data).length)) :
    Holds m (copyFormat m data s) (text ++ data) (2 * (text ++ data).length) := by
  rw [List.length_append, Nat.mul_add] at hfits ⊢
  have hs := hm.ensure h hfits
  rw [copyFormat]
  simp only [if_pos hs.ok]
  exact hs.storeAdvance data

theorem commonIntegerFormat_holds {negative : Bool} {input : Nat} (hm : Lawful m fits)
    (h : Holds m s text (2 * text.length))
    (hfits : fits (2 * (text ++ integerText env format negative input).length)) :
    Holds m (commonIntegerFormat m env format negative input s)
      (text ++ integerText env format negative input)
      (2 * (text ++ integerText env format negative input).length) := by
  rw [List.length_append, Nat.mul_add] at hfits ⊢
  rw [integerText, List.length_append, List.length_append, List.length_replicate] at hfits ⊢
  have hs := hm.ensure h hfits
  rw [commonIntegerFormat]
  simp only [if_pos hs.ok]
  rw [List.append_assoc, ← List.append_assoc, ← List.append_assoc]
  exact (((hs.put _).put _).put _).use _

theorem numberText_unit (flags : ULong) (width : Nat) (rendered : List UInt8) :
    (numberText env flags width rendered).unit = [] := by
  rw [numberText]
  split <;> rfl

theorem commonDoubleFormat_holds {flags : ULong} {width : Nat} {rendered : List UInt8}
    (hm : Lawful m fits) (h : Holds m s text (2 * text.length))
    (hfits : fits (2 * (text ++ (numberText env flags width rendered).all).length)) :
    Holds m (commonDoubleFormat m env flags width rendered s)
      (text ++ (numberText env flags width rendered).all)
      (2 * (text ++ (numberText env flags width rendered).all).length) := by
  rw [List.length_append, Nat.mul_add] at hfits ⊢
  rw [commonDoubleFormat]
  rw [numberText] at hfits ⊢
  by_cases hgroup : hasFlag flags formatGroupDigits ∧
      ¬ hasFlag flags (formatStandardForm ||| formatHexadecimalForm)
  · simp only [if_pos hgroup, PartText.all, List.append_nil, List.length_append,
      length_copyGrouped_whole, length_phZeroExtendToUtf16] at hfits ⊢
    generalize renderedNumber env flags rendered = number at hfits ⊢
    have hlength : (number.2.takeWhile isDigit).length + (number.2.dropWhile isDigit).length =
        number.2.length := by
      rw [← List.length_append, List.takeWhile_append_dropWhile]
    have hs := hm.ensure (n := 2 * ((signChars number.1 (hasFlag flags formatPrefixSign)).length +
      (number.2.length + if (number.2.takeWhile isDigit).length ≠ 0 then
        ((number.2.takeWhile isDigit).length + 2) / 3 - 1 else 0))) h (hm.down (by omega) hfits)
    rw [if_pos hs.ok, if_pos (((hs.put _).put _).use _).ok]
    have hall := (((hs.put (signChars number.1 (hasFlag flags formatPrefixSign))).put
      (copyGrouped env.phpFormatThousandSeparator
        (((number.2.takeWhile isDigit).length + 2) % 3) (number.2.takeWhile isDigit))).use
      (2 * ((signChars number.1 (hasFlag flags formatPrefixSign)).length +
        ((number.2.takeWhile isDigit).length + if (number.2.takeWhile isDigit).length ≠ 0 then
          ((number.2.takeWhile isDigit).length + 2) / 3 - 1 else 0)))).storeAdvance
      (phZeroExtendToUtf16 (number.2.dropWhile isDigit))
    rw [length_phZeroExtendToUtf16] at hall
    refine hall.cast ?_ ?_
    · simp only [List.append_assoc]
    · omega
  · simp only [if_neg hgroup, PartText.all, List.append_nil, List.length_append,
      List.length_replicate, length_phZeroExtendToUtf16] at hfits ⊢
    generalize renderedNumber env flags rendered = number at hfits ⊢
    have hs := hm.ensure h hfits
    rw [if_pos hs.ok, if_pos (((hs.put _).put _).use _).ok]
    have hall := (((hs.put (signChars number.1 (hasFlag flags formatPrefixSign))).put
      (List.replicate (padCount (hasFlag flags formatPadZeros) width
        ((signChars number.1 (hasFlag flags formatPrefixSign)).length + number.2.length))
        0x30)).use (2 * ((signChars number.1 (hasFlag flags formatPrefixSign)).length +
          padCount (hasFlag flags formatPadZeros) width
        ((signChars number.1 (hasFlag flags formatPrefixSign)).length + number.2.length)))).storeAdvance
      (phZeroExtendToUtf16 number.2)
    rw [length_phZeroExtendToUtf16] at hall
    refine hall.cast ?_ ?_
    · simp only [List.append_assoc]
    · omega

theorem multiByteFormat_holds {bytes : List UInt8} (hm : Lawful m fits)
    (h : Holds m s text (2 * text.length))
    (hfits : fits (2 * (text ++ multiByteText env bytes).length)) :
    Holds m (multiByteFormat m env bytes s) (text ++ multiByteText env bytes)
      (2 * (text ++ multiByteText env bytes).length) := by
  rw [multiByteFormat]
  rw [multiByteText] at hfits ⊢
  generalize bytes.take (bytes.length % 2 ^ 32) = bytes at hfits ⊢
  cases hsize : env.rtlMultiByteToUnicodeSize bytes with
  | none =>
      simp only [List.append_nil]
      exact h
  | some n =>
      obtain ⟨data, hdata, rfl⟩ := env.multiByte_size bytes n hsize
      simp only [hsize, hdata, Option.getD_some, List.length_append, Nat.mul_add] at hfits ⊢
      have hs := hm.ensure h hfits
      rw [if_pos hs.ok]
      exact hs.storeAdvance data

theorem sizeFormat_holds {size : BitVec 64} (hm : Lawful m fits)
    (h : Holds m s text (2 * text.length))
    (hfits : fits (2 * (text ++ (sizeText env format size).all).length)) :
    Holds m (sizeFormat m env format size s) (text ++ (sizeText env format size).all)
      (2 * (text ++ (sizeText env format size).all).length) := by
  rw [sizeFormat]
  rw [sizeText] at hfits ⊢
  by_cases hzero : size = 0
  · simp only [if_pos hzero, PartText.all_whole] at hfits ⊢
    exact copyFormat_holds hm h hfits
  · simp only [if_neg hzero] at hfits ⊢
    generalize scaledSize env format size = scaled at hfits ⊢
    have hall : text ++ PartText.all { numberText env sizeFlags 0 scaled.2 with
        unit := 0x20 :: scaled.1 } =
          (text ++ (numberText env sizeFlags 0 scaled.2).all) ++ 0x20 :: scaled.1 := by
      simp only [PartText.all, numberText_unit, List.append_assoc, List.nil_append]
    rw [hall] at hfits ⊢
    refine copyFormat_holds hm (commonDoubleFormat_holds hm h (hm.down ?_ hfits)) hfits
    rw [@List.length_append _ _ (0x20 :: scaled.1)]
    omega

theorem formatValue_holds (hm : Lawful m fits) (h : Holds m s text (2 * text.length))
    (hfits : fits (2 * (text ++ (valueText env format).all).length)) :
    Holds m (formatValue m env format s) (text ++ (valueText env format).all)
      (2 * (text ++ (valueText env format).all).length) := by
  obtain ⟨flags, precision, width, pad, radix, u⟩ := format
  cases u <;> simp only [formatValue, valueText, PartText.all_whole] at hfits ⊢
  case char => exact copyFormat_holds hm h hfits
  case string => exact copyFormat_holds hm h hfits
  case stringZ => exact copyFormat_holds hm h hfits
  case multiByteString => exact multiByteFormat_holds hm h hfits
  case multiByteStringZ => exact multiByteFormat_holds hm h hfits
  case int32 => exact commonIntegerFormat_holds hm h hfits
  case int64 => exact commonIntegerFormat_holds hm h hfits
  case intPtr => exact commonIntegerFormat_holds hm h hfits
  case uInt32 => exact commonIntegerFormat_holds hm h hfits
  case uInt64 => exact commonIntegerFormat_holds hm h hfits
  case uIntPtr => exact commonIntegerFormat_holds hm h hfits
  case single => exact commonDoubleFormat_holds hm h hfits
  case double => exact commonDoubleFormat_holds hm h hfits
  case size => exact sizeFormat_holds hm h hfits
  case other =>
      rw [List.append_nil]
      exact h

theorem length_alignText (format : PhFormat Single Double) (text : List WChar) :
    (alignText format text).length =
      if aligned format then max text.length format.width else text.length := by
  rw [alignText]
  split
  · simp only [apply_ite List.length, List.length_append, List.length_replicate]
    split <;> omega
  · rfl

theorem Holds.alignRight {part : List WChar} {count : Nat} {pad : WChar}
    (h : Holds m s (text ++ part) used) (i : Nat) :
    ((s.move (text.length + count) text.length part.length).store text.length
      (List.replicate count pad)).memory i = (text ++ (List.replicate count pad ++ part))[i]? := by
  rw [Output.store_memory, Output.move_memory, List.length_replicate]
  simp only [h.memory, List.getElem?_append, List.length_replicate]
  by_cases hlow : i < text.length
  · rw [if_neg (by omega), if_neg (by omega), if_pos hlow, if_pos hlow]
  · by_cases hpad : i < text.length + count
    · rw [if_pos (by omega), if_neg hlow, if_pos (by omega)]
    · rw [if_neg (show ¬ (text.length ≤ i ∧ i < text.length + count) by omega), if_neg hlow,
        if_neg hlow, if_neg (show ¬ i - text.length < count by omega)]
      by_cases hpart : i < text.length + count + part.length
      · rw [if_pos (show text.length + count ≤ i ∧ _ by omega),
          if_neg (show ¬ text.length + (i - (text.length + count)) < text.length by omega)]
        congr 1
        omega
      · rw [if_neg (show ¬ (text.length + count ≤ i ∧ _) by omega),
          List.getElem?_eq_none (by omega), List.getElem?_eq_none (by omega)]

theorem alignPart_holds {part : List WChar} (hm : Lawful m fits)
    (h : Holds m s (text ++ part) (2 * (text ++ part).length))
    (hfits : fits (2 * (text ++ alignText format part).length)) :
    Holds m (alignPart m format (2 * part.length) s) (text ++ alignText format part)
      (2 * (text ++ alignText format part).length) := by
  rw [alignPart, ← aligned]
  rw [List.length_append, length_alignText] at hfits
  by_cases halign : aligned format
  · rw [if_pos halign] at hfits
    rw [alignText, if_pos halign, if_pos halign]
    by_cases hwidth : part.length < format.width
    · have hcount : (2 * format.width - 2 * part.length) / 2 = format.width - part.length := by
        omega
      have hs := hm.ensure (n := 2 * format.width - 2 * part.length) h
        (hm.down (by rw [List.length_append]; omega) hfits)
      simp only [if_pos (show 2 * part.length < 2 * format.width by omega), if_pos hs.ok, hcount]
      rw [← padChar]
      generalize m.ensureBuffer (2 * format.width - 2 * part.length) s = s at hs ⊢
      by_cases hleft : hasFlag format.flags formatLeftAlign
      · rw [if_pos hleft, if_pos hleft]
        have hall := hs.storeAdvance
          (List.replicate (format.width - part.length) (padChar format))
        rw [List.length_replicate, Nat.mul_sub, List.append_assoc] at hall
        refine hall.cast rfl ?_
        simp only [List.length_append, List.length_replicate]
        omega
      · have hstart : s.buffer - 2 * part.length / 2 = text.length := by
          rw [hs.buffer, List.length_append]
          omega
        rw [if_neg hleft, if_neg hleft, hstart, Nat.mul_div_cancel_left _ (by decide)]
        refine ⟨hs.alignRight, ?_, ?_, hs.ok⟩
        · simp only [Output.advance, Output.store, Output.move, hs.buffer, List.length_append,
            List.length_replicate]
          omega
        · simp only [Output.advance, Output.store, Output.move, hs.used, List.length_append,
            List.length_replicate]
          omega
    · have hnone : format.width - part.length = 0 := by omega
      simp only [if_neg (show ¬ 2 * part.length < 2 * format.width by omega), hnone,
        List.replicate_zero, List.append_nil, List.nil_append, ite_self]
      exact h
  · rw [alignText, if_neg halign, if_neg halign]
    exact h

theorem length_le_alignText (format : PhFormat Single Double) (text : List WChar) :
    text.length ≤ (alignText format text).length := by
  rw [length_alignText]
  split
  · exact le_max_left _ _
  · exact le_rfl

theorem formatPart_holds (hm : Lawful m fits) (h : Holds m s text (2 * text.length))
    (hfits : fits (2 * (text ++ partText env format).length)) :
    Holds m (formatPart m env s format) (text ++ partText env format)
      (2 * (text ++ partText env format).length) := by
  have hvalue : Holds m (formatValue m env format s) (text ++ (valueText env format).all)
      (2 * (text ++ (valueText env format).all).length) := by
    refine formatValue_holds hm h (hm.down ?_ hfits)
    have hle := length_le_alignText format (valueText env format).all
    rw [List.length_append, List.length_append, partText]
    omega
  have hpart : (formatValue m env format s).usedLength - s.usedLength =
      2 * (valueText env format).all.length := by
    rw [hvalue.used, h.used, List.length_append]
    omega
  simp only [formatPart, hpart]
  exact alignPart_holds hm hvalue hfits

theorem formatParts_holds (hm : Lawful m fits) (formats : List (PhFormat Single Double)) :
    ∀ {s : Output σ} {text : List WChar}, Holds m s text (2 * text.length) →
      fits (2 * (text ++ formatText env formats).length) →
      Holds m (formatParts m env formats s) (text ++ formatText env formats)
        (2 * (text ++ formatText env formats).length) := by
  induction formats with
  | nil =>
      intro s text h _
      rw [formatText, List.flatMap_nil, List.append_nil]
      exact h
  | cons format formats ih =>
      intro s text h hfits
      rw [formatText, List.flatMap_cons, ← List.append_assoc] at hfits ⊢
      refine ih (formatPart_holds hm h (hm.down ?_ hfits)) hfits
      rw [@List.length_append _ (text ++ partText env format)]
      omega

/-! ## `PhFormat` -/

theorem lawful_stringMacros : Lawful stringMacros fun _ => True where
  down _ h := h
  ensure {s text n} h _ := by
    have hhalf : s.usedLength / 2 = text.length := by
      rw [h.used, Nat.mul_div_cancel_left _ (by decide)]
    rw [stringMacros]
    dsimp only
    split
    · refine ⟨fun i => ?_, hhalf, h.used, rfl⟩
      rw [phpResizeFormatBuffer, hhalf]
      dsimp only
      split
      · exact h.memory i
      · next hi => rw [List.getElem?_eq_none (by omega)]
    · exact h

theorem phFormat_text (env : FormatEnv Single Double) (formats : List (PhFormat Single Double))
    (initialCapacity : Nat) :
    (phFormat env formats initialCapacity).length = 2 * (formatText env formats).length ∧
      ∀ i, (phFormat env formats initialCapacity).buffer i =
        (formatText env formats ++ [0])[i]? := by
  have h : Holds stringMacros
      (formatParts stringMacros env formats
        ⟨fun _ => none, 0, 0, max initialCapacity smallBufferLength⟩)
      ([] ++ formatText env formats) (2 * ([] ++ formatText env formats).length) :=
    formatParts_holds lawful_stringMacros formats ⟨fun _ => rfl, rfl, rfl, rfl⟩ trivial
  rw [List.nil_append] at h
  refine ⟨h.used, fun i => ?_⟩
  have hend : (formatParts stringMacros env formats
      ⟨fun _ => none, 0, 0, max initialCapacity smallBufferLength⟩).usedLength / 2 =
        (formatParts stringMacros env formats
          ⟨fun _ => none, 0, 0, max initialCapacity smallBufferLength⟩).buffer := by
    rw [h.used, h.buffer, Nat.mul_div_cancel_left _ (by decide)]
  rw [phFormat]
  dsimp only
  rw [hend]
  exact h.store i

/-! ## `PhFormatToBuffer`, after a reservation has failed -/

variable {bufferLength : Nat}

/-- The element lies in the first `bufferLength` bytes. -/
def InBuffer (bufferLength i : Nat) : Prop := 2 * i + 2 ≤ bufferLength

/-- The buffer is too small: `used` bytes are counted, and only the buffer was written. -/
structure Overrun (bufferLength : Nat) (s : Output Bool) (used : Nat) : Prop where
  own : s.own = true
  used : s.usedLength = used
  inBuffer : ∀ i, s.memory i ≠ none → InBuffer bufferLength i

namespace Overrun

variable {s : Output Bool}

theorem not_ok (h : Overrun bufferLength s used) :
    ¬ (bufferMacros bufferLength).okBuffer s.own = true := by
  rw [h.own]
  exact Bool.false_ne_true

theorem ensure (h : Overrun bufferLength s used) (n : Nat) :
    (bufferMacros bufferLength).ensureBuffer n s = s := by
  rw [bufferMacros]
  exact if_neg fun hn => hn.1 h.own

theorem use (h : Overrun bufferLength s used) (n : Nat) :
    Overrun bufferLength (s.use n) (used + n) :=
  ⟨h.own, congrArg (· + n) h.used, h.inBuffer⟩

theorem advance (h : Overrun bufferLength s used) (n : Nat) :
    Overrun bufferLength (s.advance n) (used + n) :=
  ⟨h.own, congrArg (· + n) h.used, h.inBuffer⟩

end Overrun

/-- What is counted of a part when its first reservation fails. -/
def partCounted (env : FormatEnv Single Double) (format : PhFormat Single Double) : Nat :=
  if aligned format then max (valueText env format).counted format.width
  else (valueText env format).counted

section

variable {s : Output Bool}

theorem copyFormat_overrun (h : Overrun bufferLength s used) (data : List WChar) :
    Overrun bufferLength (copyFormat (bufferMacros bufferLength) data s)
      (used + 2 * data.length) := by
  rw [copyFormat]
  simp only [h.ensure, if_neg h.not_ok]
  exact h.advance _

theorem commonIntegerFormat_overrun (h : Overrun bufferLength s used) (negative : Bool)
    (input : Nat) :
    Overrun bufferLength (commonIntegerFormat (bufferMacros bufferLength) env format negative input s)
      (used + 2 * (integerText env format negative input).length) := by
  rw [commonIntegerFormat, integerText]
  simp only [h.ensure, if_neg h.not_ok, List.length_append, List.length_replicate]
  exact h.use _

theorem commonDoubleFormat_overrun (h : Overrun bufferLength s used) (flags : ULong) (width : Nat)
    (rendered : List UInt8) :
    Overrun bufferLength
      (commonDoubleFormat (bufferMacros bufferLength) env flags width rendered s)
      (used + 2 * (numberText env flags width rendered).counted) := by
  rw [commonDoubleFormat, numberText]
  simp only [h.ensure, if_neg h.not_ok, if_neg (h.use _).not_ok]
  by_cases hgroup : hasFlag flags formatGroupDigits ∧
      ¬ hasFlag flags (formatStandardForm ||| formatHexadecimalForm)
  · simp only [if_pos hgroup, PartText.counted, List.length_append, length_copyGrouped_whole]
    exact h.use _
  · simp only [if_neg hgroup, PartText.counted, List.length_append, List.length_replicate]
    exact h.use _

theorem multiByteFormat_overrun (h : Overrun bufferLength s used) (bytes : List UInt8) :
    Overrun bufferLength (multiByteFormat (bufferMacros bufferLength) env bytes s)
      (used + 2 * (multiByteText env bytes).length) := by
  rw [multiByteFormat, multiByteText]
  generalize bytes.take (bytes.length % 2 ^ 32) = bytes
  cases hsize : env.rtlMultiByteToUnicodeSize bytes with
  | none => exact h
  | some n =>
      obtain ⟨data, hdata, rfl⟩ := env.multiByte_size bytes n hsize
      simp only [h.ensure, if_neg h.not_ok, hdata, Option.getD_some]
      exact h.advance _

theorem sizeFormat_overrun (h : Overrun bufferLength s used) (size : BitVec 64) :
    Overrun bufferLength (sizeFormat (bufferMacros bufferLength) env format size s)
      (used + 2 * (sizeText env format size).counted) := by
  rw [sizeFormat, sizeText]
  by_cases hzero : size = 0
  · simp only [if_pos hzero]
    exact copyFormat_overrun h [0x30]
  · simp only [if_neg hzero]
    generalize scaledSize env format size = scaled
    have hnumber : Overrun bufferLength
        (commonDoubleFormat (bufferMacros bufferLength) env sizeFlags 0 scaled.2 s)
        (used + 2 * (numberText env sizeFlags 0 scaled.2).counted) :=
      commonDoubleFormat_overrun h sizeFlags 0 scaled.2
    have hall := copyFormat_overrun hnumber (0x20 :: scaled.1)
    rw [PartText.counted, numberText_unit, List.length_nil, Nat.add_zero, Nat.add_assoc,
      ← Nat.mul_add] at hall
    exact hall

theorem formatValue_overrun (h : Overrun bufferLength s used) :
    Overrun bufferLength (formatValue (bufferMacros bufferLength) env format s)
      (used + 2 * (valueText env format).counted) := by
  obtain ⟨flags, precision, width, pad, radix, u⟩ := format
  cases u <;> simp only [formatValue, valueText]
  case char => exact copyFormat_overrun h _
  case string => exact copyFormat_overrun h _
  case stringZ => exact copyFormat_overrun h _
  case multiByteString => exact multiByteFormat_overrun h _
  case multiByteStringZ => exact multiByteFormat_overrun h _
  case int32 => exact commonIntegerFormat_overrun h _ _
  case int64 => exact commonIntegerFormat_overrun h _ _
  case intPtr => exact commonIntegerFormat_overrun h _ _
  case uInt32 => exact commonIntegerFormat_overrun h _ _
  case uInt64 => exact commonIntegerFormat_overrun h _ _
  case uIntPtr => exact commonIntegerFormat_overrun h _ _
  case single => exact commonDoubleFormat_overrun h _ _ _
  case double => exact commonDoubleFormat_overrun h _ _ _
  case size => exact sizeFormat_overrun h _
  case other => exact h

theorem alignPart_overrun {base count : Nat} (h : Overrun bufferLength s (base + 2 * count)) :
    Overrun bufferLength (alignPart (bufferMacros bufferLength) format (2 * count) s)
      (base + 2 * if aligned format then max count format.width else count) := by
  rw [alignPart, ← aligned]
  by_cases halign : aligned format
  · rw [if_pos halign, if_pos halign]
    by_cases hwidth : count < format.width
    · simp only [if_pos (show 2 * count < 2 * format.width by omega), h.ensure, if_neg h.not_ok]
      have hall := h.advance (2 * format.width - 2 * count)
      rw [show base + 2 * count + (2 * format.width - 2 * count) =
        base + 2 * max count format.width by omega] at hall
      exact hall
    · rw [if_neg (by omega), max_eq_left (by omega)]
      exact h
  · rw [if_neg halign, if_neg halign]
    exact h

theorem formatPart_overrun (h : Overrun bufferLength s used) :
    Overrun bufferLength (formatPart (bufferMacros bufferLength) env s format)
      (used + 2 * partCounted env format) := by
  have hvalue : Overrun bufferLength (formatValue (bufferMacros bufferLength) env format s)
      (used + 2 * (valueText env format).counted) := formatValue_overrun h
  have hpart : (formatValue (bufferMacros bufferLength) env format s).usedLength - s.usedLength =
      2 * (valueText env format).counted := by
    rw [hvalue.used, h.used, Nat.add_sub_cancel_left]
  simp only [formatPart, hpart]
  exact alignPart_overrun hvalue

end

/-! ## The reservation that fails

A part whose first reservation fails does what it does after a failed reservation. -/

section

variable {s : Output Bool}

def failed (s : Output Bool) : Output Bool := { s with own := true }

theorem ensure_failed (n : Nat) :
    (bufferMacros bufferLength).ensureBuffer n (failed s) = failed s := by
  dsimp only [bufferMacros]
  rw [if_neg]
  rintro ⟨hn, -⟩
  exact hn rfl

theorem ensure_over {n : Nat} (hown : s.own = false) (hover : bufferLength < s.usedLength + n) :
    (bufferMacros bufferLength).ensureBuffer n s = failed s := by
  rw [bufferMacros]
  exact if_pos ⟨by rw [hown]; exact Bool.false_ne_true, hover⟩

theorem copyFormat_over (hown : s.own = false)
    (hover : bufferLength < s.usedLength + 2 * data.length) :
    copyFormat (bufferMacros bufferLength) data s =
      copyFormat (bufferMacros bufferLength) data (failed s) := by
  simp only [copyFormat, ensure_over hown hover, ensure_failed]

theorem commonIntegerFormat_over {negative : Bool} {input : Nat} (hown : s.own = false)
    (hover : bufferLength < s.usedLength + 2 * (integerText env format negative input).length) :
    commonIntegerFormat (bufferMacros bufferLength) env format negative input s =
      commonIntegerFormat (bufferMacros bufferLength) env format negative input (failed s) := by
  rw [integerText, List.length_append, List.length_append, List.length_replicate] at hover
  simp only [commonIntegerFormat, ensure_over hown hover, ensure_failed]

theorem commonDoubleFormat_over {flags : ULong} {width : Nat} {rendered : List UInt8}
    (hown : s.own = false)
    (hover : bufferLength < s.usedLength + 2 * (numberText env flags width rendered).first) :
    commonDoubleFormat (bufferMacros bufferLength) env flags width rendered s =
      commonDoubleFormat (bufferMacros bufferLength) env flags width rendered (failed s) := by
  rw [numberText] at hover
  by_cases hgroup : hasFlag flags formatGroupDigits ∧
      ¬ hasFlag flags (formatStandardForm ||| formatHexadecimalForm)
  · simp only [if_pos hgroup, PartText.first, List.length_append, length_copyGrouped_whole,
      length_phZeroExtendToUtf16] at hover
    have hlength : ((renderedNumber env flags rendered).2.takeWhile isDigit).length +
        ((renderedNumber env flags rendered).2.dropWhile isDigit).length =
          (renderedNumber env flags rendered).2.length := by
      rw [← List.length_append, List.takeWhile_append_dropWhile]
    simp only [commonDoubleFormat, if_pos hgroup, ensure_failed]
    rw [ensure_over hown (by omega)]
  · simp only [if_neg hgroup, PartText.first, List.length_append, List.length_replicate,
      length_phZeroExtendToUtf16] at hover
    simp only [commonDoubleFormat, if_neg hgroup, ensure_failed, ensure_over hown hover]

theorem multiByteFormat_over {bytes : List UInt8} (hown : s.own = false)
    (hle : s.usedLength ≤ bufferLength)
    (hover : bufferLength < s.usedLength + 2 * (multiByteText env bytes).length) :
    multiByteFormat (bufferMacros bufferLength) env bytes s =
      multiByteFormat (bufferMacros bufferLength) env bytes (failed s) := by
  rw [multiByteFormat, multiByteFormat]
  rw [multiByteText] at hover
  generalize bytes.take (bytes.length % 2 ^ 32) = bytes at hover ⊢
  cases hsize : env.rtlMultiByteToUnicodeSize bytes with
  | none =>
      rw [hsize] at hover
      simp only [List.length_nil] at hover
      omega
  | some n =>
      obtain ⟨data, hdata, rfl⟩ := env.multiByte_size bytes n hsize
      simp only [hsize, hdata, Option.getD_some] at hover
      simp only [ensure_over hown hover, ensure_failed]

theorem sizeFormat_over {size : BitVec 64} (hown : s.own = false)
    (hover : bufferLength < s.usedLength + 2 * (sizeText env format size).first) :
    sizeFormat (bufferMacros bufferLength) env format size s =
      sizeFormat (bufferMacros bufferLength) env format size (failed s) := by
  rw [sizeFormat, sizeFormat]
  rw [sizeText] at hover
  by_cases hzero : size = 0
  · rw [if_pos hzero] at hover
    rw [if_pos hzero, if_pos hzero]
    exact copyFormat_over hown hover
  · simp only [if_neg hzero] at hover ⊢
    rw [commonDoubleFormat_over hown hover]

theorem formatValue_over (hown : s.own = false) (hle : s.usedLength ≤ bufferLength)
    (hover : bufferLength < s.usedLength + 2 * (valueText env format).first) :
    formatValue (bufferMacros bufferLength) env format s =
      formatValue (bufferMacros bufferLength) env format (failed s) := by
  obtain ⟨flags, precision, width, pad, radix, u⟩ := format
  cases u <;> simp only [formatValue, valueText] at hover ⊢
  case char => exact copyFormat_over hown hover
  case string => exact copyFormat_over hown hover
  case stringZ => exact copyFormat_over hown hover
  case multiByteString => exact multiByteFormat_over hown hle hover
  case multiByteStringZ => exact multiByteFormat_over hown hle hover
  case int32 => exact commonIntegerFormat_over hown hover
  case int64 => exact commonIntegerFormat_over hown hover
  case intPtr => exact commonIntegerFormat_over hown hover
  case uInt32 => exact commonIntegerFormat_over hown hover
  case uInt64 => exact commonIntegerFormat_over hown hover
  case uIntPtr => exact commonIntegerFormat_over hown hover
  case single => exact commonDoubleFormat_over hown hover
  case double => exact commonDoubleFormat_over hown hover
  case size => exact sizeFormat_over hown hover
  case other => exact absurd hover (by simp only [PartText.whole, PartText.first, List.length_nil]; omega)

theorem Holds.own_eq_false (h : Holds (bufferMacros bufferLength) s text used) : s.own = false := by
  cases hown : s.own with
  | false => rfl
  | true =>
      have hok := h.ok
      rw [hown] at hok
      exact absurd hok Bool.false_ne_true

theorem Holds.overrun (h : Holds (bufferMacros bufferLength) s text used)
    (hfits : 2 * text.length ≤ bufferLength) : Overrun bufferLength (failed s) used where
  own := rfl
  used := h.used
  inBuffer i hi := by
    rw [InBuffer]
    have hlt : i < text.length := by
      by_contra hge
      exact hi ((h.memory i).trans (List.getElem?_eq_none (by omega)))
    omega

theorem lawful_bufferMacros : Lawful (bufferMacros bufferLength) (· ≤ bufferLength) where
  down hjk hk := hjk.trans hk
  ensure {s text n} h hfits := by
    have hskip : (bufferMacros bufferLength).ensureBuffer n s = s := by
      rw [bufferMacros]
      exact if_neg fun hn => absurd hn.2 (by rw [h.used]; omega)
    rw [hskip]
    exact h

end

/-! ## Counting the parts -/

section

variable {s : Output Bool} {hasBuffer : Bool}

theorem PartText.length_all (p : PartText) : p.all.length = p.first + p.unit.length := by
  rw [all, first, List.length_append, List.length_append]

theorem formatValue_partly (h : Holds (bufferMacros bufferLength) s text (2 * text.length))
    (hfirst : 2 * (text.length + (valueText env format).first) ≤ bufferLength)
    (hover : bufferLength < 2 * (text ++ (valueText env format).all).length) :
    Overrun bufferLength (formatValue (bufferMacros bufferLength) env format s)
      (2 * (text ++ (valueText env format).all).length) := by
  have hunit : (valueText env format).unit ≠ [] := by
    intro hnil
    rw [List.length_append, PartText.length_all, hnil, List.length_nil] at hover
    omega
  obtain ⟨flags, precision, width, pad, radix, u⟩ := format
  cases u with
  | size size =>
      simp only [formatValue, valueText] at hfirst hover hunit ⊢
      by_cases hzero : size = 0
      · rw [sizeText, if_pos hzero] at hunit
        exact absurd rfl hunit
      · rw [sizeFormat]
        rw [sizeText] at hfirst hover ⊢
        simp only [if_neg hzero] at hfirst hover ⊢
        generalize scaledSize env _ size = scaled at hfirst hover ⊢
        have hall : text ++ PartText.all { numberText env sizeFlags 0 scaled.2 with
            unit := 0x20 :: scaled.1 } =
              (text ++ (numberText env sizeFlags 0 scaled.2).all) ++ 0x20 :: scaled.1 := by
          simp only [PartText.all, numberText_unit, List.append_assoc, List.nil_append]
        have hnumber : (text ++ (numberText env sizeFlags 0 scaled.2).all).length =
            text.length + (numberText env sizeFlags 0 scaled.2).first := by
          rw [List.length_append, PartText.length_all, numberText_unit, List.length_nil,
            Nat.add_zero]
        rw [PartText.first] at hfirst
        rw [PartText.first] at hnumber
        have hs : Holds (bufferMacros bufferLength)
            (commonDoubleFormat (bufferMacros bufferLength) env sizeFlags 0 scaled.2 s)
            (text ++ (numberText env sizeFlags 0 scaled.2).all)
            (2 * (text ++ (numberText env sizeFlags 0 scaled.2).all).length) :=
          commonDoubleFormat_holds lawful_bufferMacros h (by rw [hnumber]; exact hfirst)
        rw [hall, @List.length_append _ _ (0x20 :: scaled.1), Nat.mul_add] at hover ⊢
        rw [copyFormat_over hs.own_eq_false (by rw [hs.used]; exact hover)]
        exact copyFormat_overrun (hs.overrun (by rw [hnumber]; exact hfirst)) _
  | single v => exact absurd (numberText_unit _ _ _) hunit
  | double v => exact absurd (numberText_unit _ _ _) hunit
  | _ => exact absurd rfl hunit

theorem alignPart_over {count : Nat} (hown : s.own = false) (halign : aligned format)
    (hwidth : count < format.width)
    (hover : bufferLength < s.usedLength + (2 * format.width - 2 * count)) :
    alignPart (bufferMacros bufferLength) format (2 * count) s =
      alignPart (bufferMacros bufferLength) format (2 * count) (failed s) := by
  rw [alignPart, alignPart, ← aligned, if_pos halign, if_pos halign]
  simp only [if_pos (show 2 * count < 2 * format.width by omega), ensure_over hown hover,
    ensure_failed]

theorem formatPart_partly (h : Holds (bufferMacros bufferLength) s text (2 * text.length))
    (hfirst : 2 * (text.length + (valueText env format).first) ≤ bufferLength)
    (hover : bufferLength < 2 * (text ++ partText env format).length) :
    Overrun bufferLength (formatPart (bufferMacros bufferLength) env s format)
      (2 * (text ++ partText env format).length) := by
  have hlength : (text ++ partText env format).length = text.length +
      if aligned format then max (valueText env format).all.length format.width
      else (valueText env format).all.length := by
    rw [List.length_append, partText, length_alignText]
  by_cases hvalue : 2 * (text ++ (valueText env format).all).length ≤ bufferLength
  · -- The padding does not fit.
    have hs := formatValue_holds lawful_bufferMacros h hvalue
    have hpart : (formatValue (bufferMacros bufferLength) env format s).usedLength - s.usedLength =
        2 * (valueText env format).all.length := by
      rw [hs.used, h.used, List.length_append]
      omega
    rw [hlength] at hover ⊢
    have halign : aligned format := by
      by_contra hno
      rw [if_neg hno, ← List.length_append] at hover
      omega
    rw [if_pos halign] at hover ⊢
    rw [List.length_append] at hvalue
    simp only [formatPart, hpart]
    rw [alignPart_over hs.own_eq_false halign (by omega)
      (by rw [hs.used, List.length_append]; omega)]
    have hvalued := hs.overrun (by rw [List.length_append]; omega)
    rw [List.length_append, Nat.mul_add] at hvalued
    have hall := @alignPart_overrun _ _ format _ _ _ _ hvalued
    rw [if_pos halign, ← Nat.mul_add] at hall
    exact hall
  · -- The unit does not fit.
    have hs := formatValue_partly h hfirst (Nat.lt_of_not_le hvalue)
    have hpart : (formatValue (bufferMacros bufferLength) env format s).usedLength - s.usedLength =
        2 * (valueText env format).all.length := by
      rw [hs.used, h.used, List.length_append]
      omega
    simp only [formatPart, hpart]
    rw [hlength, Nat.mul_add]
    rw [List.length_append, Nat.mul_add] at hs
    exact alignPart_overrun hs

end

/-- What `n` bytes are counted for: the text so far, in full unless a reservation has failed. -/
def Counting (hasBuffer : Bool) (bufferLength : Nat) (s : Output Bool) (text : List WChar)
    (n : Nat) : Prop :=
  (hasBuffer = true ∧ 2 * text.length ≤ bufferLength ∧
    Holds (bufferMacros bufferLength) s text (2 * text.length) ∧ n = 2 * text.length) ∨
  (¬ (hasBuffer = true ∧ 2 * text.length ≤ bufferLength) ∧ Overrun bufferLength s n)

/-- The number of the part is reached by the buffer, or leaves nothing out, or nothing that the
width does not cover. -/
def CountedInFull (env : FormatEnv Single Double) (hasBuffer : Bool) (bufferLength : Nat)
    (before : List WChar) (format : PhFormat Single Double) : Prop :=
  (hasBuffer = true ∧
    2 * (before.length + ((valueText env format).head.length +
      (valueText env format).tail.length)) ≤ bufferLength) ∨
  (valueText env format).tail = [] ∨
  (aligned format = true ∧ (valueText env format).all.length ≤ format.width)

theorem partCounted_le (env : FormatEnv Single Double) (format : PhFormat Single Double) :
    partCounted env format ≤ (partText env format).length := by
  rw [partCounted, partText, length_alignText, PartText.length_all, PartText.counted,
    PartText.first]
  split <;> omega

theorem partCounted_eq_iff (env : FormatEnv Single Double) (format : PhFormat Single Double) :
    partCounted env format = (partText env format).length ↔
      (valueText env format).tail = [] ∨
        (aligned format = true ∧ (valueText env format).all.length ≤ format.width) := by
  rw [partCounted, partText, length_alignText, PartText.length_all, PartText.counted,
    PartText.first, ← List.length_eq_zero_iff]
  by_cases halign : aligned format
  · rw [if_pos halign, if_pos halign]
    constructor
    · intro h
      by_cases htail : (valueText env format).tail.length = 0
      · exact Or.inl htail
      · exact Or.inr ⟨halign, by omega⟩
    · rintro (h | ⟨-, h⟩) <;> omega
  · rw [if_neg halign, if_neg halign]
    constructor
    · intro h
      exact Or.inl (by omega)
    · rintro (h | ⟨h, -⟩)
      · omega
      · exact absurd h halign

section

variable {s : Output Bool} {hasBuffer : Bool} {n : Nat}

theorem formatPart_over (hown : s.own = false) (hle : s.usedLength ≤ bufferLength)
    (hover : bufferLength < s.usedLength + 2 * (valueText env format).first) :
    formatPart (bufferMacros bufferLength) env s format =
      formatPart (bufferMacros bufferLength) env (failed s) format := by
  rw [formatPart, formatPart, formatValue_over hown hle hover]
  rfl

theorem formatPart_counting (h : Counting hasBuffer bufferLength s text n) :
    ∃ n', Counting hasBuffer bufferLength (formatPart (bufferMacros bufferLength) env s format)
        (text ++ partText env format) n' ∧
      n' ≤ n + 2 * (partText env format).length ∧
      (n' = n + 2 * (partText env format).length ↔
        CountedInFull env hasBuffer bufferLength text format) := by
  have hcounted := partCounted_le env format
  have hiff := partCounted_eq_iff env format
  rcases h with ⟨hbuffer, hfits, hs, rfl⟩ | ⟨hover, hs⟩
  · by_cases hfirst : 2 * (text.length + (valueText env format).first) ≤ bufferLength
    · refine ⟨2 * (text ++ partText env format).length, ?_, ?_, ?_⟩
      · by_cases hpart : 2 * (text ++ partText env format).length ≤ bufferLength
        · exact Or.inl ⟨hbuffer, hpart, formatPart_holds lawful_bufferMacros hs hpart, rfl⟩
        · exact Or.inr ⟨fun hno => hpart hno.2, formatPart_partly hs hfirst (Nat.lt_of_not_le hpart)⟩
      · rw [List.length_append, Nat.mul_add]
      · rw [List.length_append, Nat.mul_add]
        exact iff_of_true rfl (Or.inl ⟨hbuffer, hfirst⟩)
    · refine ⟨2 * text.length + 2 * partCounted env format, Or.inr ⟨?_, ?_⟩, by omega, ?_⟩
      · have hle := length_le_alignText format (valueText env format).all
        rw [PartText.length_all, ← partText] at hle
        rw [List.length_append]
        omega
      · rw [formatPart_over hs.own_eq_false (by rw [hs.used]; exact hfits) (by rw [hs.used]; omega)]
        exact formatPart_overrun (hs.overrun hfits)
      · rw [CountedInFull, ← hiff]
        constructor
        · intro h
          exact Or.inr (by omega)
        · rintro (h | h)
          · exact absurd h.2 hfirst
          · rw [h]
  · refine ⟨n + 2 * partCounted env format, Or.inr ⟨?_, formatPart_overrun hs⟩, by omega, ?_⟩
    · rw [List.length_append]
      exact fun hno => hover ⟨hno.1, by omega⟩
    · rw [CountedInFull, ← hiff]
      constructor
      · intro h
        exact Or.inr (by omega)
      · rintro (h | h)
        · exact absurd ⟨h.1, by omega⟩ hover
        · rw [h]

theorem forall_split_cons {α : Type} {P : List α → α → Prop} {x : α} {l : List α} :
    (∀ before y after, x :: l = before ++ y :: after → P before y) ↔
      P [] x ∧ ∀ before y after, l = before ++ y :: after → P (x :: before) y := by
  constructor
  · intro h
    exact ⟨h [] x l rfl, fun before y after hl => h (x :: before) y after (congrArg (x :: ·) hl)⟩
  · rintro ⟨hhead, htail⟩ before y after hl
    cases before with
    | nil =>
        obtain ⟨rfl, -⟩ := List.cons.inj hl
        exact hhead
    | cons z before =>
        obtain ⟨rfl, hrest⟩ := List.cons.inj hl
        exact htail before y after hrest

theorem formatParts_counting (formats : List (PhFormat Single Double)) :
    ∀ {s : Output Bool} {text : List WChar} {n : Nat}, Counting hasBuffer bufferLength s text n →
      ∃ n', Counting hasBuffer bufferLength
          (formatParts (bufferMacros bufferLength) env formats s) (text ++ formatText env formats) n' ∧
        n' ≤ n + 2 * (formatText env formats).length ∧
        (n' = n + 2 * (formatText env formats).length ↔
          ∀ before format after, formats = before ++ format :: after →
            CountedInFull env hasBuffer bufferLength (text ++ formatText env before) format) := by
  induction formats with
  | nil =>
      intro s text n h
      refine ⟨n, ?_, Nat.le_add_right _ _, iff_of_true rfl ?_⟩
      · rw [formatText, List.flatMap_nil, List.append_nil]
        exact h
      · intro before format after hsplit
        exact absurd hsplit.symm (List.append_ne_nil_of_right_ne_nil _ (List.cons_ne_nil _ _))
  | cons format formats ih =>
      intro s text n h
      obtain ⟨n₁, h₁, hle₁, hiff₁⟩ := @formatPart_counting _ _ _ env format _ _ _ _ h
      obtain ⟨n₂, h₂, hle₂, hiff₂⟩ := ih h₁
      have htext : formatText env (format :: formats) =
          partText env format ++ formatText env formats := List.flatMap_cons
      rw [htext, List.length_append, Nat.mul_add, ← List.append_assoc]
      refine ⟨n₂, h₂, by omega, ?_⟩
      have hsum : n₂ = n + (2 * (partText env format).length + 2 * (formatText env formats).length) ↔
          n₁ = n + 2 * (partText env format).length ∧
            n₂ = n₁ + 2 * (formatText env formats).length := by omega
      rw [hsum, hiff₁, hiff₂, forall_split_cons]
      refine and_congr (by rw [formatText, List.flatMap_nil, List.append_nil]) ?_
      refine forall_congr' fun before => forall_congr' fun format' => forall_congr' fun after => ?_
      rw [formatText, formatText, List.flatMap_cons, List.append_assoc]

end

/-! ## The two functions -/

/-- What is claimed of the two functions for a list of parts and a buffer. -/
def Agrees (env : FormatEnv Single Double) (formats : List (PhFormat Single Double))
    (initialCapacity : Nat) (hasBuffer : Bool) (bufferLength : Nat) : Prop :=
  let string := phFormat env formats initialCapacity
  let result := phFormatToBuffer env formats hasBuffer bufferLength
  result.returnLength = string.length + 2 ∧
    (result.success = true ↔ hasBuffer = true ∧ result.returnLength ≤ bufferLength) ∧
    (result.success = true →
      (∀ i, 2 * i < string.length → ∃ c, string.buffer i = some c ∧ result.buffer i = some c) ∧
        result.buffer (string.length / 2) = some 0) ∧
    ∀ i, result.buffer i ≠ none → InBuffer bufferLength i

section

variable {s : Output Bool} {hasBuffer : Bool} {n : Nat}

theorem phFormatToBuffer_fits {formats : List (PhFormat Single Double)}
    (h : Holds (bufferMacros bufferLength) (formatParts (bufferMacros bufferLength) env formats
      ⟨fun _ => none, 0, 0, !hasBuffer⟩) text (2 * text.length))
    (hfits : 2 * text.length + 2 ≤ bufferLength) :
    (phFormatToBuffer env formats hasBuffer bufferLength).success = true ∧
      (phFormatToBuffer env formats hasBuffer bufferLength).returnLength = 2 * text.length + 2 ∧
      ∀ i, (phFormatToBuffer env formats hasBuffer bufferLength).buffer i = (text ++ [0])[i]? := by
  have hs := lawful_bufferMacros.ensure h hfits
  rw [phFormatToBuffer]
  simp only [if_pos hs.ok]
  exact ⟨hs.ok, congrArg (· + 2) hs.used, hs.store⟩

theorem phFormatToBuffer_overrun {formats : List (PhFormat Single Double)}
    (h : Overrun bufferLength ((bufferMacros bufferLength).ensureBuffer 2
      (formatParts (bufferMacros bufferLength) env formats ⟨fun _ => none, 0, 0, !hasBuffer⟩)) n) :
    (phFormatToBuffer env formats hasBuffer bufferLength).success = false ∧
      (phFormatToBuffer env formats hasBuffer bufferLength).returnLength = n + 2 ∧
      ((∀ i, (phFormatToBuffer env formats hasBuffer bufferLength).buffer i ≠ none →
        InBuffer bufferLength i) ↔ ¬ (hasBuffer = true ∧ bufferLength = 1)) := by
  rw [phFormatToBuffer]
  simp only [if_neg h.not_ok]
  split
  · next hstore =>
      refine ⟨by rw [Output.advance, Output.store, h.own]; rfl, congrArg (· + 2) h.used, ?_⟩
      simp only [Output.advance, Output.store_memory]
      constructor
      · intro hall hone
        have hzero := hall 0 (by
          rw [if_pos ⟨le_rfl, by decide⟩]
          exact Option.some_ne_none _)
        rw [InBuffer] at hzero
        omega
      · intro hone i hi
        by_cases hzero : 0 ≤ i ∧ i < 0 + [(0 : WChar)].length
        · rw [List.length_singleton] at hzero
          have hlength : bufferLength ≠ 1 := fun hb => hone ⟨hstore.1, hb⟩
          have hpos : bufferLength ≠ 0 := hstore.2
          rw [InBuffer]
          omega
        · rw [if_neg hzero] at hi
          exact h.inBuffer i hi
  · next hstore =>
      refine ⟨by rw [Output.advance, h.own]; rfl, congrArg (· + 2) h.used, ?_⟩
      refine iff_of_true h.inBuffer fun hone => hstore ⟨hone.1, ?_⟩
      rw [hone.2]
      exact one_ne_zero

/-- The two functions agree exactly when each rendered number is reached by the buffer or leaves
nothing out, and the buffer is not one of a single byte. -/
theorem phFormatToBuffer_agrees (env : FormatEnv Single Double)
    (formats : List (PhFormat Single Double)) (initialCapacity : Nat) (hasBuffer : Bool)
    (bufferLength : Nat) :
    Agrees env formats initialCapacity hasBuffer bufferLength ↔
      ¬ (hasBuffer = true ∧ bufferLength = 1) ∧
        ∀ before format after, formats = before ++ format :: after →
          CountedInFull env hasBuffer bufferLength (formatText env before) format := by
  have hstart : Counting hasBuffer bufferLength ⟨fun _ => none, 0, 0, !hasBuffer⟩ [] 0 := by
    cases hasBuffer with
    | true =>
        exact Or.inl ⟨rfl, Nat.zero_le _, ⟨fun _ => rfl, rfl, rfl, rfl⟩, rfl⟩
    | false =>
        exact Or.inr ⟨fun h => Bool.false_ne_true h.1, rfl, rfl, fun i hi => absurd rfl hi⟩
  obtain ⟨n, hn, hle, hiff⟩ := @formatParts_counting _ _ env _ _ formats _ _ _ hstart
  obtain ⟨hlength, hstring⟩ := phFormat_text env formats initialCapacity
  rw [Nat.zero_add] at hle hiff
  rw [List.nil_append] at hn
  simp only [List.nil_append] at hiff
  rw [← hiff, Agrees]
  simp only [hlength]
  by_cases hfits : hasBuffer = true ∧ 2 * (formatText env formats).length + 2 ≤ bufferLength
  · rcases hn with ⟨-, -, hs, rfl⟩ | ⟨hover, -⟩
    · obtain ⟨hsuccess, hreturn, hbuffer⟩ := phFormatToBuffer_fits hs hfits.2
      rw [hsuccess, hreturn]
      refine iff_of_true ⟨rfl, iff_of_true rfl hfits, fun _ => ⟨fun i hi => ?_, ?_⟩, fun i hi => ?_⟩
        ⟨fun hone => by omega, rfl⟩
      · rw [hstring, hbuffer]
        rw [List.getElem?_append_left (by omega), List.getElem?_eq_getElem (by omega)]
        exact ⟨_, rfl, rfl⟩
      · rw [hbuffer, Nat.mul_div_cancel_left _ (by decide), List.getElem?_concat_length]
      · rw [hbuffer] at hi
        have hlt : i < (formatText env formats ++ [0]).length := by
          by_contra hge
          exact hi (List.getElem?_eq_none (by omega))
        rw [List.length_append, List.length_singleton] at hlt
        rw [InBuffer]
        omega
    · exact absurd ⟨hfits.1, by omega⟩ hover
  · have hs : Overrun bufferLength ((bufferMacros bufferLength).ensureBuffer 2
        (formatParts (bufferMacros bufferLength) env formats
          ⟨fun _ => none, 0, 0, !hasBuffer⟩)) n := by
      rcases hn with ⟨hbuffer, hin, hs, rfl⟩ | ⟨-, hs⟩
      · rw [ensure_over hs.own_eq_false (by
          rw [hs.used]
          exact Nat.lt_of_not_le fun hno => hfits ⟨hbuffer, hno⟩)]
        exact hs.overrun hin
      · rw [hs.ensure]
        exact hs
    obtain ⟨hsuccess, hreturn, hwritten⟩ := phFormatToBuffer_overrun hs
    rw [hsuccess, hreturn, ← hwritten]
    constructor
    · rintro ⟨hcount, -, -, hin⟩
      exact ⟨hin, by omega⟩
    · rintro ⟨hin, hcount⟩
      refine ⟨by rw [hcount], iff_of_false Bool.false_ne_true fun h => hfits ⟨h.1, ?_⟩,
        fun h => absurd h Bool.false_ne_true, hin⟩
      rw [← hcount]
      exact h.2

end

/-! ## A number and no buffer -/

def rendered (v precision : Nat) : List UInt8 :=
  (((Nat.digits 10 v).reverse.map fun d => UInt8.ofNat (0x30 + d)) ++
    0x2e :: List.replicate precision 0x30).take (2 * bufferSize - 2)

theorem length_rendered (v precision : Nat) :
    (rendered v precision).length < 2 * bufferSize - 1 := by
  rw [rendered, List.length_take]
  exact Nat.lt_of_le_of_lt (Nat.min_le_left _ _) (by decide)

/-- Whole numbers with `precision` zeros behind the point, and bytes for characters. -/
def wholeNumbers : FormatEnv Nat Nat where
  phpFormatDecimalSeparator := 0x2e
  phpFormatThousandSeparator := 0x2c
  phMaxSizeUnit := SystemInformer.ulongMax
  phpFormatSingleToUtf8Locale v _ precision := rendered v precision
  phpFormatDoubleToUtf8Locale v _ precision := rendered v precision
  ofSize v := v.toNat
  isAtLeast1000 s := 1000 ≤ s
  divideBy1024 s := s / 1024
  rtlMultiByteToUnicodeSize s := some (2 * s.length)
  rtlMultiByteToUnicodeN s := some (s.map UInt8.toUInt16)
  bytesAt _ := []
  single_length v _ precision := length_rendered v precision
  double_length v _ precision := length_rendered v precision
  multiByte_size s n h := ⟨_, rfl, by
    rw [List.length_map]
    exact (Option.some.inj h).symm⟩

/-- The required length of `1.000000` is not the length of the string. -/
theorem phFormatToBuffer_differs :
    ¬ Agrees wholeNumbers [⟨0, 0, 0, 0, 0, .double 1⟩] 0 false 0 := by
  intro h
  exact absurd h.1 (by decide +kernel)

end SystemInformer.PhLib
