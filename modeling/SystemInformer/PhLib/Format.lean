import SystemInformer.Base.Words

/-!
# String formatting (`format.c`, `format_i.h`)

The formatting code is one body that `PhFormat` and `PhFormatToBuffer` include with different
`ENSURE_BUFFER` and `OK_BUFFER` macros: the first resizes its string when it is full, the second
stops writing and only counts on. So the body is a function of these two macros here, over the
variables it works on.

Lengths are numbers of bytes and natural numbers: the elements of a part are bounded by the
`USHORT` width and the temporary buffer, and a string that no `SIZE_T` can count cannot be
allocated. A buffer is what has been written at each of its elements. A C string is the list of
its characters, up to the terminator if the list holds one.

The functions that render a floating-point number, the conversion of multi-byte strings and the
locale are parameters.
-/

namespace SystemInformer.PhLib

def bufferSize : Nat := 512

/-- `SMALL_BUFFER_LENGTH`, with `FIELD_OFFSET(PH_STRING, Data)` on 64 bits. -/
def smallBufferLength : Nat := 48 - 16 - 2

/-- `_CVTBUFSIZE` of the C runtime. -/
def cvtBufSize : Nat := 309 + 40

def formatUsePrecision : ULong := 0x40
def formatUsePad : ULong := 0x80
def formatUseRadix : ULong := 0x100
def formatStandardForm : ULong := 0x1000
def formatHexadecimalForm : ULong := 0x2000
def formatCropZeros : ULong := 0x8000
def formatGroupDigits : ULong := 0x10000
def formatPrefixSign : ULong := 0x20000
def formatPadZeros : ULong := 0x40000
def formatUpperCase : ULong := 0x20000000
def formatRightAlign : ULong := 0x40000000
def formatLeftAlign : ULong := 0x80000000

def singleFormatType : ULong := 11

def doubleFormatType : ULong := 12

/-- The characters from `first` on. -/
def charRun (first count : Nat) : List WChar := (List.range' first count).map UInt16.ofNat

def phIntegerToChar : List WChar :=
  charRun 0x30 10 ++ charRun 0x61 26 ++ charRun 0x20 16 ++ charRun 0x3a 7 ++ charRun 0x5b 6 ++
    charRun 0x7b 4

def phIntegerToCharUpper : List WChar :=
  charRun 0x30 10 ++ charRun 0x41 26 ++ charRun 0x20 16 ++ charRun 0x3a 7 ++ charRun 0x5b 6 ++
    charRun 0x7b 4

/-- The characters `B`, `kB`, `MB`, … of `PhpSizeUnitNamesCounted`. -/
def phpSizeUnitNamesCounted : List (List WChar) :=
  [[0x42], [0x6b, 0x42], [0x4d, 0x42], [0x47, 0x42], [0x54, 0x42], [0x50, 0x42], [0x45, 0x42]]

def cString {α : Type} [DecidableEq α] [Zero α] (s : List α) : List α := s.takeWhile (· ≠ 0)

/-- The union of `PH_FORMAT`, by the type that says which member is read. -/
inductive PhFormatUnion (Single Double : Type) where
  | char (c : WChar)
  | string (s : List WChar)
  | stringZ (s : List WChar)
  | multiByteString (length : Nat) (buffer : List UInt8)
  | multiByteStringZ (s : List UInt8)
  | int32 (v : BitVec 32)
  | int64 (v : BitVec 64)
  | intPtr (v : ULongPtr)
  | uInt32 (v : BitVec 32)
  | uInt64 (v : BitVec 64)
  | uIntPtr (v : ULongPtr)
  | single (v : Single)
  | double (v : Double)
  | size (v : BitVec 64)
  | other

/-- `PH_FORMAT`. `flags` are the bits of `Type` above `FormatTypeMask`. -/
structure PhFormat (Single Double : Type) where
  flags : ULong
  precision : Nat
  width : Nat
  pad : WChar
  radix : Nat
  u : PhFormatUnion Single Double

section

variable {Single Double : Type}

/-- `PhInitFormatC`. The fields that a `PhInitFormat` function does not set are not read. -/
def phInitFormatC (c : WChar) : PhFormat Single Double := ⟨0, 0, 0, 0, 0, .char c⟩

def phInitFormatD (v : BitVec 32) : PhFormat Single Double := ⟨0, 0, 0, 0, 0, .int32 v⟩

def phInitFormatU (v : BitVec 32) : PhFormat Single Double := ⟨0, 0, 0, 0, 0, .uInt32 v⟩

def phInitFormatX (v : BitVec 32) : PhFormat Single Double :=
  ⟨formatUseRadix, 0, 0, 0, 16, .uInt32 v⟩

def phInitFormatI64D (v : BitVec 64) : PhFormat Single Double := ⟨0, 0, 0, 0, 0, .int64 v⟩

def phInitFormatI64U (v : BitVec 64) : PhFormat Single Double := ⟨0, 0, 0, 0, 0, .uInt64 v⟩

end

/-- What the formatting code uses of the C runtime, of the locale and of `ntdll`, with the
single- and double-precision numbers. A rendered number is shorter than the temporary buffer, and
a multi-byte string has in Unicode the size that was asked for. -/
structure FormatEnv (Single Double : Type) where
  phpFormatDecimalSeparator : WChar
  phpFormatThousandSeparator : WChar
  phMaxSizeUnit : Nat
  phpFormatSingleToUtf8Locale : Single → ULong → Nat → List UInt8
  phpFormatDoubleToUtf8Locale : Double → ULong → Nat → List UInt8
  ofSize : BitVec 64 → Double
  isAtLeast1000 : Double → Bool
  divideBy1024 : Double → Double
  rtlMultiByteToUnicodeSize : List UInt8 → Option Nat
  rtlMultiByteToUnicodeN : List UInt8 → Option (List WChar)
  bytesAt : Nat → List UInt8
  single_length : ∀ v flags precision,
    (phpFormatSingleToUtf8Locale v flags precision).length < 2 * bufferSize - 1
  double_length : ∀ v flags precision,
    (phpFormatDoubleToUtf8Locale v flags precision).length < 2 * bufferSize - 1
  multiByte_size : ∀ s n, rtlMultiByteToUnicodeSize s = some n →
    ∃ t, rtlMultiByteToUnicodeN s = some t ∧ n = 2 * t.length

/-- The variables of the function that formats: what is written in the buffer, the place of
`buffer` in it, `usedLength`, and what only its macros know. -/
structure Output (σ : Type) where
  memory : Nat → Option WChar
  buffer : Nat
  usedLength : Nat
  own : σ

namespace Output

variable {σ : Type}

/-- `memcpy` or `wmemset` to an element of the buffer. -/
def store (s : Output σ) (position : Nat) (data : List WChar) : Output σ :=
  { s with memory := fun i =>
      if position ≤ i ∧ i < position + data.length then data[i - position]? else s.memory i }

/-- Characters are stored at `buffer`, which moves behind them. -/
def put (s : Output σ) (data : List WChar) : Output σ :=
  { s.store s.buffer data with buffer := s.buffer + data.length }

/-- `memmove` inside the buffer. -/
def move (s : Output σ) (target source count : Nat) : Output σ :=
  { s with memory := fun i =>
      if target ≤ i ∧ i < target + count then s.memory (source + (i - target)) else s.memory i }

/-- `usedLength += length`. -/
def use (s : Output σ) (length : Nat) : Output σ := { s with usedLength := s.usedLength + length }

/-- `ADVANCE_BUFFER`. -/
def advance (s : Output σ) (length : Nat) : Output σ :=
  { s with buffer := s.buffer + length / 2, usedLength := s.usedLength + length }

theorem store_memory (s : Output σ) (position : Nat) (data : List WChar) (i : Nat) :
    (s.store position data).memory i =
      if position ≤ i ∧ i < position + data.length then data[i - position]? else s.memory i := rfl

theorem move_memory (s : Output σ) (target source count i : Nat) :
    (s.move target source count).memory i =
      if target ≤ i ∧ i < target + count then s.memory (source + (i - target))
      else s.memory i := rfl

end Output

/-- `ENSURE_BUFFER` and `OK_BUFFER`. -/
structure Macros (σ : Type) where
  ensureBuffer : Nat → Output σ → Output σ
  okBuffer : σ → Bool

variable {σ Single Double : Type}

def hasFlag (flags flag : ULong) : Bool := flags &&& flag ≠ 0

def copyFormat (m : Macros σ) (data : List WChar) (s : Output σ) : Output σ :=
  let s := m.ensureBuffer (2 * data.length) s
  let s := if m.okBuffer s.own then s.store s.buffer data else s
  s.advance (2 * data.length)

/-- The characters of a multi-byte string. Its type is compared with all flags, so with a flag it
is read as a terminated one, and the pointer is then the length. -/
def multiByteBytes (env : FormatEnv Single Double) (flags : ULong) (length : Nat)
    (buffer : List UInt8) : List UInt8 :=
  if flags = 0 then buffer.take length else cString (env.bytesAt length)

def multiByteFormat (m : Macros σ) (env : FormatEnv Single Double) (bytes : List UInt8)
    (s : Output σ) : Output σ :=
  let bytes := bytes.take (bytes.length % 2 ^ 32)
  match env.rtlMultiByteToUnicodeSize bytes with
  | none => s
  | some bytesInUnicodeString =>
      let s := m.ensureBuffer bytesInUnicodeString s
      if m.okBuffer s.own then
        match env.rtlMultiByteToUnicodeN bytes with
        | none => s
        | some data => (s.store s.buffer data).advance bytesInUnicodeString
      else s.advance bytesInUnicodeString

/-- The loop of `PROCESS_DIGIT`, to the left of `temp`; `fuel` bounds the digits of `input`. -/
def processDigits (integerToChar : List WChar) (radix : Nat) :
    Nat → Nat → List WChar → List WChar
  | 0, _, temp => temp
  | fuel + 1, input, temp =>
      let temp := integerToChar.getD (input % radix) 0 :: temp
      if input / radix ≠ 0 then processDigits integerToChar radix fuel (input / radix) temp
      else temp

def processGroupedDigits (integerToChar : List WChar) (separator : WChar) (radix : Nat) :
    Nat → Nat → Nat → List WChar → List WChar
  | 0, _, _, temp => temp
  | fuel + 1, needsSep, input, temp =>
      let temp := integerToChar.getD (input % radix) 0 :: temp
      if input / radix ≠ 0 then
        if needsSep + 1 = 3 then
          processGroupedDigits integerToChar separator radix fuel 0 (input / radix)
            (separator :: temp)
        else
          processGroupedDigits integerToChar separator radix fuel (needsSep + 1) (input / radix)
            temp
      else temp

/-- What `COMMON_INTEGER_FORMAT` has in `temp`. An integer has 64 bits, so at most 64 digits. -/
def integerDigits (env : FormatEnv Single Double) (format : PhFormat Single Double)
    (input : Nat) : List WChar :=
  let radix :=
    if hasFlag format.flags formatUseRadix ∧ 2 ≤ format.radix ∧ format.radix ≤ 69 then
      format.radix
    else 10
  let integerToChar :=
    if hasFlag format.flags formatUpperCase then phIntegerToCharUpper else phIntegerToChar
  if input ≠ 0 then
    if hasFlag format.flags formatGroupDigits then
      processGroupedDigits integerToChar env.phpFormatThousandSeparator radix 64 0 input []
    else processDigits integerToChar radix 64 input []
  else [0x30]

def signChars (negative positive : Bool) : List WChar :=
  if negative then [0x2d] else if positive then [0x2b] else []

/-- The number of zeros that pad `count` characters to the width. -/
def padCount (padZeros : Bool) (width count : Nat) : Nat :=
  if padZeros ∧ count < width then width - count else 0

def commonIntegerFormat (m : Macros σ) (env : FormatEnv Single Double)
    (format : PhFormat Single Double) (negative : Bool) (input : Nat) (s : Output σ) : Output σ :=
  let temp := integerDigits env format input
  let sign := signChars negative (hasFlag format.flags formatPrefixSign)
  let zeros :=
    padCount (hasFlag format.flags formatPadZeros && !hasFlag format.flags formatGroupDigits)
      format.width (sign.length + temp.length)
  let length := 2 * (sign.length + zeros + temp.length)
  let s := m.ensureBuffer length s
  let s :=
    if m.okBuffer s.own then ((s.put sign).put (List.replicate zeros 0x30)).put temp else s
  s.use length

/-- `PhpCropZeros`: the zeros before the exponent are dropped, and the separator if it is then
the last character. -/
def phpCropZeros (decimalSeparator : UInt8) (buffer : List UInt8) : List UInt8 :=
  let whole := buffer.takeWhile (· ≠ decimalSeparator)
  match buffer.dropWhile (· ≠ decimalSeparator) with
  | [] => buffer
  | separator :: fraction =>
      let digits := fraction.takeWhile fun c => c ≠ 0x65 ∧ c ≠ 0x45
      let stop := fraction.dropWhile fun c => c ≠ 0x65 ∧ c ≠ 0x45
      let kept := (whole ++ separator :: digits).rdropWhile (· = 0x30)
      (if kept.getLast? = some decimalSeparator then kept.dropLast else kept) ++ stop

/-- `PhZeroExtendToUtf16Buffer`. -/
def phZeroExtendToUtf16 (input : List UInt8) : List WChar := input.map UInt8.toUInt16

def isDigit (c : UInt8) : Bool := c - 0x30 < 10

/-- The loop that copies the digits before the decimal point with their separators. -/
def copyGrouped (separator : WChar) : Nat → List UInt8 → List WChar
  | _, [] => []
  | needsSep, c :: whole =>
      if needsSep = 0 ∧ whole ≠ [] then c.toUInt16 :: separator :: copyGrouped separator 2 whole
      else c.toUInt16 :: copyGrouped separator (needsSep - 1) whole

/-- What `COMMON_DOUBLE_FORMAT` has in `temp` when the number is rendered: whether it is negative,
and what follows the sign. -/
def renderedNumber (env : FormatEnv Single Double) (flags : ULong) (rendered : List UInt8) :
    Bool × List UInt8 :=
  let temp := cString rendered
  let temp :=
    if hasFlag flags formatCropZeros then
      phpCropZeros env.phpFormatDecimalSeparator.toUInt8 temp
    else temp
  match temp with
  | [] => (false, [])
  | c :: rest => if c = 0x2d then (true, rest) else (false, c :: rest)

def formatPrecision (flags : ULong) (precision : Nat) : Nat :=
  if hasFlag flags formatUsePrecision then min precision (bufferSize - 1 - cvtBufSize) else 6

/-- `COMMON_DOUBLE_FORMAT`, from the rendered number on. -/
def commonDoubleFormat (m : Macros σ) (env : FormatEnv Single Double) (flags : ULong)
    (width : Nat) (rendered : List UInt8) (s : Output σ) : Output σ :=
  let negative := (renderedNumber env flags rendered).1
  let temp := (renderedNumber env flags rendered).2
  let sign := signChars negative (hasFlag flags formatPrefixSign)
  if hasFlag flags formatGroupDigits ∧
      ¬ hasFlag flags (formatStandardForm ||| formatHexadecimalForm) then
    let whole := temp.takeWhile isDigit
    let decimalPoint := temp.dropWhile isDigit
    let sepsCount := if whole.length ≠ 0 then (whole.length + 2) / 3 - 1 else 0
    let s := m.ensureBuffer (2 * (sign.length + (temp.length + sepsCount))) s
    let s :=
      if m.okBuffer s.own then
        (s.put sign).put (copyGrouped env.phpFormatThousandSeparator ((whole.length + 2) % 3) whole)
      else s
    let s := s.use (2 * (sign.length + (whole.length + sepsCount)))
    -- The rest is counted only when it is copied.
    if m.okBuffer s.own then
      (s.store s.buffer (phZeroExtendToUtf16 decimalPoint)).advance (2 * decimalPoint.length)
    else s
  else
    let zeros := padCount (hasFlag flags formatPadZeros) width (sign.length + temp.length)
    let s := m.ensureBuffer (2 * (sign.length + zeros + temp.length)) s
    let s := if m.okBuffer s.own then (s.put sign).put (List.replicate zeros 0x30) else s
    let s := s.use (2 * (sign.length + zeros))
    if m.okBuffer s.own then
      (s.store s.buffer (phZeroExtendToUtf16 temp)).advance (2 * temp.length)
    else s

def sizeFlags : ULong := formatUsePrecision ||| formatCropZeros ||| formatGroupDigits

/-- The loop that divides a size by 1024 as long as it is too long; `fuel` is the number of unit
names that are left. -/
def scaleSize (env : FormatEnv Single Double) (maxSizeUnit : Nat) :
    Nat → Nat → Double → Nat × Double
  | 0, i, s => (i, s)
  | fuel + 1, i, s =>
      if env.isAtLeast1000 s ∧ i < maxSizeUnit then
        scaleSize env maxSizeUnit fuel (i + 1) (env.divideBy1024 s)
      else (i, s)

/-- The unit of a size and the number before it, rendered. -/
def scaledSize (env : FormatEnv Single Double) (format : PhFormat Single Double)
    (size : BitVec 64) : List WChar × List UInt8 :=
  let maxSizeUnit :=
    if hasFlag format.flags formatUseRadix then format.radix else env.phMaxSizeUnit
  let scaled := scaleSize env maxSizeUnit phpSizeUnitNamesCounted.length 0 (env.ofSize size)
  let precision := if hasFlag format.flags formatUsePrecision then format.precision else 2
  (phpSizeUnitNamesCounted.getD scaled.1 [],
    env.phpFormatDoubleToUtf8Locale scaled.2 (doubleFormatType ||| sizeFlags)
      (formatPrecision sizeFlags precision))

/-- `SizeFormatType`. -/
def sizeFormat (m : Macros σ) (env : FormatEnv Single Double) (format : PhFormat Single Double)
    (size : BitVec 64) (s : Output σ) : Output σ :=
  if size = 0 then copyFormat m [0x30] s
  else
    let scaled := scaledSize env format size
    let s := commonDoubleFormat m env sizeFlags 0 scaled.2 s
    copyFormat m (0x20 :: scaled.1) s

/-- The value of a signed integer without its sign, and whether it had one. -/
def signed {w : Nat} (v : BitVec w) : Bool × Nat := (v.msb, if v.msb then (-v).toNat else v.toNat)

def formatValue (m : Macros σ) (env : FormatEnv Single Double) (format : PhFormat Single Double)
    (s : Output σ) : Output σ :=
  match format.u with
  | .char c => copyFormat m [c] s
  | .string data => copyFormat m data s
  | .stringZ data => copyFormat m (cString data) s
  | .multiByteString length buffer =>
      multiByteFormat m env (multiByteBytes env format.flags length buffer) s
  | .multiByteStringZ bytes => multiByteFormat m env (cString bytes) s
  | .int32 v => commonIntegerFormat m env format (signed v).1 (signed v).2 s
  | .int64 v => commonIntegerFormat m env format (signed v).1 (signed v).2 s
  | .intPtr v => commonIntegerFormat m env format (signed v).1 (signed v).2 s
  | .uInt32 v => commonIntegerFormat m env format false v.toNat s
  | .uInt64 v => commonIntegerFormat m env format false v.toNat s
  | .uIntPtr v => commonIntegerFormat m env format false v.toNat s
  | .single v =>
      commonDoubleFormat m env format.flags format.width
        (env.phpFormatSingleToUtf8Locale v (singleFormatType ||| format.flags)
          (formatPrecision format.flags format.precision)) s
  | .double v =>
      commonDoubleFormat m env format.flags format.width
        (env.phpFormatDoubleToUtf8Locale v (doubleFormatType ||| format.flags)
          (formatPrecision format.flags format.precision)) s
  | .size v => sizeFormat m env format v s
  | .other => s

/-- The end of the loop: the part is aligned in its width. -/
def alignPart (m : Macros σ) (format : PhFormat Single Double) (partLength : Nat)
    (s : Output σ) : Output σ :=
  if hasFlag format.flags (formatLeftAlign ||| formatRightAlign) then
    let newLength := 2 * format.width
    if partLength < newLength then
      let addLength := newLength - partLength
      let s := m.ensureBuffer addLength s
      let s :=
        if m.okBuffer s.own then
          let pad := if hasFlag format.flags formatUsePad then format.pad else 0x20
          if hasFlag format.flags formatLeftAlign then
            s.store s.buffer (List.replicate (addLength / 2) pad)
          else
            let start := s.buffer - partLength / 2
            (s.move (start + addLength / 2) start (partLength / 2)).store start
              (List.replicate (addLength / 2) pad)
        else s
      s.advance addLength
    else s
  else s

def formatPart (m : Macros σ) (env : FormatEnv Single Double) (s : Output σ)
    (format : PhFormat Single Double) : Output σ :=
  let t := formatValue m env format s
  alignPart m format (t.usedLength - s.usedLength) t

def formatParts (m : Macros σ) (env : FormatEnv Single Double)
    (formats : List (PhFormat Single Double)) (s : Output σ) : Output σ :=
  formats.foldl (formatPart m env) s

/-- `PhpResizeFormatBuffer`, with the macro's update of `buffer`. The capacity is the function's
own variable. -/
def phpResizeFormatBuffer (neededLength : Nat) (s : Output Nat) : Output Nat where
  memory i := if i < s.usedLength / 2 then s.memory i else none
  buffer := s.usedLength / 2
  usedLength := s.usedLength
  own := max (2 * s.own) (s.usedLength + neededLength)

/-- The macros of `PhFormat`. -/
def stringMacros : Macros Nat where
  ensureBuffer neededLength s :=
    if s.own < s.usedLength + neededLength then phpResizeFormatBuffer neededLength s else s
  okBuffer _ := true

structure PhString where
  length : Nat
  buffer : Nat → Option WChar

def phFormat (env : FormatEnv Single Double) (formats : List (PhFormat Single Double))
    (initialCapacity : Nat) : PhString :=
  let s := formatParts stringMacros env formats
    ⟨fun _ => none, 0, 0, max initialCapacity smallBufferLength⟩
  ⟨s.usedLength, (s.store (s.usedLength / 2) [0]).memory⟩

/-- The macros of `PhFormatToBuffer`; `overrun` is the function's own variable. -/
def bufferMacros (bufferLength : Nat) : Macros Bool where
  ensureBuffer neededLength s :=
    if ¬ s.own ∧ bufferLength < s.usedLength + neededLength then { s with own := true } else s
  okBuffer overrun := !overrun

/-- What `PhFormatToBuffer` leaves: its result, `*ReturnLength` and the elements written. -/
structure FormatToBuffer where
  success : Bool
  returnLength : Nat
  buffer : Nat → Option WChar

/-- `PhFormatToBuffer`; `hasBuffer` is whether `Buffer` is not `NULL`. -/
def phFormatToBuffer (env : FormatEnv Single Double) (formats : List (PhFormat Single Double))
    (hasBuffer : Bool) (bufferLength : Nat) : FormatToBuffer :=
  let m := bufferMacros bufferLength
  let s := formatParts m env formats ⟨fun _ => none, 0, 0, !hasBuffer⟩
  let s := m.ensureBuffer 2 s
  let s :=
    if m.okBuffer s.own then s.store s.buffer [0]
    else if hasBuffer ∧ bufferLength ≠ 0 then s.store 0 [0]
    else s
  let s := s.advance 2
  ⟨m.okBuffer s.own, s.usedLength, s.memory⟩

end SystemInformer.PhLib
