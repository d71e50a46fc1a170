import SystemInformer.PhLib.Format

/-!
# Strings and integers (`basesup.c`)

The functions read a character at a time and go on after one that is no digit of the base, only
remembering that the string is not valid. What they return is the result and what is stored at
`*Integer`, which is nothing when the base is refused.
-/

namespace SystemInformer.PhLib

variable {Single Double : Type}

/-- The characters of a `PH_STRING`. -/
def PhString.chars (s : PhString) : List WChar :=
  (List.range (s.length / 2)).map fun i => (s.buffer i).getD 0

/-- `PhCharToInteger`, where `-1` is no digit. -/
def phCharToInteger : List Nat :=
  List.replicate 32 (2 ^ 32 - 1) ++
    List.range' 36 16 ++
    List.range' 0 10 ++
    List.range' 52 7 ++
    List.range' 10 26 ++
    List.range' 59 6 ++
    List.range' 10 26 ++
    List.range' 65 4 ++
    List.replicate 129 (2 ^ 32 - 1)

/-- The value of a character, of which only the low byte is looked at. -/
def charToInteger (c : WChar) : Nat := phCharToInteger.getD c.toUInt8.toNat 0

/-- The loop of `PhpStringToInteger64`. -/
def stringToInteger64Loop (base : Nat) : List WChar → Bool → BitVec 64 → Bool × BitVec 64
  | [], valid, result => (valid, result)
  | c :: string, valid, result =>
      if charToInteger c < base then
        stringToInteger64Loop base string valid
          (result * BitVec.ofNat 64 base + BitVec.ofNat 64 (charToInteger c))
      else stringToInteger64Loop base string false result

def phpStringToInteger64 (string : List WChar) (base : Nat) : Bool × BitVec 64 :=
  stringToInteger64Loop base string true 0

/-- The base that the second character of a prefix stands for; 10 if it is none. -/
def prefixBase (c : WChar) : Nat :=
  if c = 0x78 ∨ c = 0x58 then 16
  else if c = 0x6f ∨ c = 0x4f then 8
  else if c = 0x62 ∨ c = 0x42 then 2
  else if c = 0x74 ∨ c = 0x54 then 3
  else if c = 0x71 ∨ c = 0x51 then 4
  else if c = 0x77 ∨ c = 0x57 then 12
  else if c = 0x72 ∨ c = 0x52 then 32
  else 10

/-- The base of a string, and the string without the prefix it was inferred from. -/
def inferBase (string : List WChar) (base : Nat) : Nat × List WChar :=
  if base ≠ 0 then (base, string)
  else
    match string with
    | c :: d :: rest =>
        if c = 0x30 ∧ prefixBase d ≠ 10 then (prefixBase d, rest) else (10, string)
    | _ => (10, string)

/-- Whether the string begins with a minus sign, and the string without its sign. -/
def skipSign : List WChar → Bool × List WChar
  | [] => (false, [])
  | c :: rest =>
      if c = 0x2d ∨ c = 0x2b then (decide (c = 0x2d), rest) else (false, c :: rest)

def phStringToInteger64 (string : List WChar) (base : Nat) : Bool × Option (BitVec 64) :=
  if 69 < base then (false, none)
  else
    let negative := (skipSign string).1
    let inferred := inferBase (skipSign string).2 base
    let result := phpStringToInteger64 inferred.2 inferred.1
    (result.1, some (if negative then -result.2 else result.2))

def phStringToUInt64 (string : List WChar) (base : Nat) : Bool × Option (BitVec 64) :=
  if 69 < base then (false, none)
  else
    let inferred := inferBase (skipSign string).2 base
    let result := phpStringToInteger64 inferred.2 inferred.1
    (result.1, some result.2)

def phIntegerToString64 (env : FormatEnv Single Double) (integer : BitVec 64) (base : Nat)
    (signed : Bool) : Option PhString :=
  if base = 1 ∨ 69 < base then none
  else
    let format := if signed then phInitFormatI64D integer else phInitFormatI64U integer
    let format :=
      if base ≠ 0 then
        { format with flags := format.flags ||| formatUseRadix, radix := base }
      else format
    some (phFormat env [format] 0)

/-! ## Hexadecimal strings

A string is the list of its `Length / sizeof(WCHAR)` characters, and what a decoder has written to
its buffer is the list of the bytes, the first one first. The encoder that is handed a buffer
counts its output in bytes, its characters by an index, and the bytes of its input by a `ULONG`,
so the loop need not end. -/

/-- The byte that two characters are decoded to; each is looked up by its low byte. -/
def hexByte (high low : WChar) : UInt8 :=
  UInt8.ofNat (charToInteger high <<< 4) + UInt8.ofNat (charToInteger low)

/-- The loop of the decoders, which takes two characters at a time. -/
def hexStringLoop : List WChar → List UInt8
  | high :: low :: string => hexByte high low :: hexStringLoop string
  | _ => []

/-- `PhHexStringToBuffer`, with the bytes written to `Buffer` when it answers `TRUE`. -/
def phHexStringToBuffer (string : List WChar) : Option (List UInt8) :=
  if string.length &&& 1 ≠ 0 then none else some (hexStringLoop string)

def phHexStringToBufferEx (string : List WChar) (bufferLength : Nat) : Option (List UInt8) :=
  if string.length &&& 1 ≠ 0 then none
  else if bufferLength < string.length / 2 then none
  else some (hexStringLoop string)

def hexTable (upperCase : Bool) : List WChar :=
  if upperCase then phIntegerToCharUpper else phIntegerToChar

def hexChars (table : List WChar) (byte : UInt8) : List WChar :=
  [table.getD (byte.toNat >>> 4) 0, table.getD (byte.toNat &&& 0xf) 0]

def phBufferToHexStringEx (buffer : List UInt8) (upperCase : Bool) : List WChar :=
  buffer.flatMap (hexChars (hexTable upperCase))

def indexedStores : Nat → List WChar → List (Nat × WChar)
  | _, [] => []
  | i, c :: string => (i, c) :: indexedStores (i + 1) string

/-- The loop of `PhBufferToHexStringBuffer`, which has stored `stored` and is at the byte `i`.
Without fuel it is still running. -/
def hexBufferLoop (table : List WChar) (inputBuffer : List UInt8) :
    Nat → UInt32 → List (Nat × WChar) → Option (UInt32 × List (Nat × WChar))
  | 0, _, _ => none
  | fuel + 1, i, stored =>
      if i.toNat < inputBuffer.length then
        hexBufferLoop table inputBuffer fuel (i + 1)
          (stored ++ indexedStores (2 * i.toNat) (hexChars table (inputBuffer.getD i.toNat 0)))
      else some (i, stored)

/-- What `PhBufferToHexStringBuffer` answers, what it stores at `ReturnLength` if that is not
`NULL`, and the characters it stores, each at its index in `OutputBuffer`. -/
structure HexStringBuffer where
  success : Bool
  returnLength : Option Nat
  stored : List (Nat × WChar)

/-- `PhBufferToHexStringBuffer`. The size of the digits is a `SIZE_T`. -/
def phBufferToHexStringBuffer (inputBuffer : List UInt8) (upperCase : Bool) (outputLength : Nat)
    (hasReturnLength : Bool) (fuel : Nat) : Option HexStringBuffer :=
  let length := inputBuffer.length * 2 * 2 % 2 ^ 64
  if outputLength < length then
    some ⟨false, if hasReturnLength then some length else none, []⟩
  else
    (hexBufferLoop (hexTable upperCase) inputBuffer fuel 0 []).map fun (i, stored) =>
      ⟨true, if hasReturnLength then some (i.toNat * 2 * 2) else none,
        stored ++ [(2 * i.toNat, 0)]⟩

end SystemInformer.PhLib
