import SystemInformer.Base.Words

/-!
# Decoding and encoding Unicode (`basesup.c`)

A `PH_UNICODE_DECODER` is given code units one at a time, in the array `Input`, and is asked for
code points until there are none. What it has read of a sequence is kept in `State` and the code
units next to it; when the sequence turns out not to be one, they are put back in front of the
input, all but the first.

A result of `none` is what `PhRaiseStatus` leaves.
-/

namespace SystemInformer.PhLib

/-- `PH_UNICODE_*`. -/
inductive PhUnicode where
  | utf8
  | utf16
  | utf32
  | other (encoding : UInt8)
deriving DecidableEq

def phUnicodeMaxCodePoint : ULong := 0x10ffff

/-- `u.Utf8`. -/
structure Utf8Units where
  input0 : UInt8
  input1 : UInt8
  input2 : UInt8
  input3 : UInt8
  codeUnit1 : UInt8
  codeUnit2 : UInt8
  codeUnit3 : UInt8
  codeUnit4 : UInt8

/-- `u.Utf16`. -/
structure Utf16Units where
  input0 : UInt16
  input1 : UInt16
  codeUnit : UInt16

/-- `PH_UNICODE_DECODER`; of the members of the union only that of the encoding is used. -/
structure PhUnicodeDecoder where
  encoding : PhUnicode
  state : Nat
  inputCount : Nat
  utf8 : Utf8Units
  utf16 : Utf16Units
  utf32Input : ULong

def phInitializeUnicodeDecoder (encoding : PhUnicode) : PhUnicodeDecoder :=
  ⟨encoding, 0, 0, ⟨0, 0, 0, 0, 0, 0, 0, 0⟩, ⟨0, 0, 0⟩, 0⟩

/-- `(UCHAR)`. -/
def uchar (codeUnit : ULong) : UInt8 := UInt8.ofNat codeUnit.toNat

/-- `(USHORT)`. -/
def ushort (codeUnit : ULong) : UInt16 := UInt16.ofNat codeUnit.toNat

/-- The value of a `UCHAR` as a `ULONG`. -/
def ofUChar (codeUnit : UInt8) : ULong := BitVec.ofNat 32 codeUnit.toNat

/-- The value of a `USHORT` as a `ULONG`. -/
def ofUShort (codeUnit : UInt16) : ULong := BitVec.ofNat 32 codeUnit.toNat

/-- `Input[InputCount] = CodeUnit`. -/
def Utf8Units.setInput (u : Utf8Units) (inputCount : Nat) (codeUnit : UInt8) : Utf8Units :=
  match inputCount with
  | 0 => { u with input0 := codeUnit }
  | 1 => { u with input1 := codeUnit }
  | 2 => { u with input2 := codeUnit }
  | _ => { u with input3 := codeUnit }

def Utf16Units.setInput (u : Utf16Units) (inputCount : Nat) (codeUnit : UInt16) : Utf16Units :=
  match inputCount with
  | 0 => { u with input0 := codeUnit }
  | _ => { u with input1 := codeUnit }

namespace PhUnicodeDecoder

def phWriteUnicodeDecoder (decoder : PhUnicodeDecoder) (codeUnit : ULong) :
    Option (Bool × PhUnicodeDecoder) :=
  match decoder.encoding with
  | .utf8 =>
      if decoder.inputCount ≥ 4 then some (false, decoder)
      else
        some (true, { decoder with
          utf8 := decoder.utf8.setInput decoder.inputCount (uchar codeUnit)
          inputCount := decoder.inputCount + 1 })
  | .utf16 =>
      if decoder.inputCount ≥ 2 then some (false, decoder)
      else
        some (true, { decoder with
          utf16 := decoder.utf16.setInput decoder.inputCount (ushort codeUnit)
          inputCount := decoder.inputCount + 1 })
  | .utf32 =>
      if decoder.inputCount ≥ 1 then some (false, decoder)
      else some (true, { decoder with utf32Input := codeUnit, inputCount := 1 })
  | .other _ => none

/-- `PhpReadUnicodeDecoder`; without a code unit it has returned `FALSE`. -/
def phpReadUnicodeDecoder (decoder : PhUnicodeDecoder) :
    Option (Option ULong × PhUnicodeDecoder) :=
  match decoder.encoding with
  | .utf8 =>
      if decoder.inputCount = 0 then some (none, decoder)
      else
        some (some (ofUChar decoder.utf8.input0), { decoder with
          utf8 := { decoder.utf8 with
            input0 := decoder.utf8.input1
            input1 := decoder.utf8.input2
            input2 := decoder.utf8.input3 }
          inputCount := decoder.inputCount - 1 })
  | .utf16 =>
      if decoder.inputCount = 0 then some (none, decoder)
      else
        some (some (ofUShort decoder.utf16.input0), { decoder with
          utf16 := { decoder.utf16 with input0 := decoder.utf16.input1 }
          inputCount := decoder.inputCount - 1 })
  | .utf32 =>
      if decoder.inputCount = 0 then some (none, decoder)
      else some (some decoder.utf32Input, { decoder with inputCount := decoder.inputCount - 1 })
  | .other _ => none

def phpUnreadUnicodeDecoder (decoder : PhUnicodeDecoder) (codeUnit : ULong) :
    Option PhUnicodeDecoder :=
  match decoder.encoding with
  | .utf8 =>
      if decoder.inputCount ≥ 4 then none
      else
        some { decoder with
          utf8 := { decoder.utf8 with
            input3 := decoder.utf8.input2
            input2 := decoder.utf8.input1
            input1 := decoder.utf8.input0
            input0 := uchar codeUnit }
          inputCount := decoder.inputCount + 1 }
  | .utf16 =>
      if decoder.inputCount ≥ 2 then none
      else
        some { decoder with
          utf16 := { decoder.utf16 with
            input1 := decoder.utf16.input0
            input0 := ushort codeUnit }
          inputCount := decoder.inputCount + 1 }
  | .utf32 =>
      if decoder.inputCount ≥ 1 then none
      else some { decoder with utf32Input := codeUnit, inputCount := 1 }
  | .other _ => none

inductive Round where
  | continued
  | returned (codePoint : Option ULong)
deriving DecidableEq

/-- `if (Which >= ..) PhpUnreadUnicodeDecoder(..)`. -/
def unreadFrom (decoder : PhUnicodeDecoder) (which least : Nat) (codeUnit : Utf8Units → UInt8) :
    Option PhUnicodeDecoder :=
  if which ≥ least then decoder.phpUnreadUnicodeDecoder (ofUChar (codeUnit decoder.utf8))
  else some decoder

def phpDecodeUtf8Error (decoder : PhUnicodeDecoder) (which : Nat) :
    Option (Round × PhUnicodeDecoder) := do
  let decoder ← decoder.unreadFrom which 4 Utf8Units.codeUnit4
  let decoder ← decoder.unreadFrom which 3 Utf8Units.codeUnit3
  let decoder ← decoder.unreadFrom which 2 Utf8Units.codeUnit2
  some (.returned (some (ofUChar decoder.utf8.codeUnit1 + 0xdc00)), { decoder with state := 0 })

/-- What `switch (Decoder->State)` does with a code unit of UTF-8. -/
def decodeUtf8Unit (decoder : PhUnicodeDecoder) (codeUnit : ULong) :
    Option (Round × PhUnicodeDecoder) :=
  let unit := uchar codeUnit
  match decoder.state with
  | 0 =>
      let decoder := { decoder with utf8 := { decoder.utf8 with codeUnit1 := unit } }
      if codeUnit < 0x80 then some (.returned (some codeUnit), decoder)
      else if codeUnit < 0xc2 then decoder.phpDecodeUtf8Error 1
      else if codeUnit < 0xe0 then some (.continued, { decoder with state := 1 })
      else if codeUnit < 0xf0 then some (.continued, { decoder with state := 2 })
      else if codeUnit < 0xf5 then some (.continued, { decoder with state := 3 })
      else decoder.phpDecodeUtf8Error 1
  | 1 =>
      let decoder := { decoder with utf8 := { decoder.utf8 with codeUnit2 := unit } }
      if codeUnit &&& 0xc0 = 0x80 then
        some (.returned (some ((ofUChar decoder.utf8.codeUnit1 <<< 6) + codeUnit - 0x3080)),
          { decoder with state := 0 })
      else decoder.phpDecodeUtf8Error 2
  | 2 =>
      let decoder := { decoder with utf8 := { decoder.utf8 with codeUnit2 := unit } }
      if codeUnit &&& 0xc0 = 0x80 ∧ (decoder.utf8.codeUnit1 ≠ (0xe0 : UInt8) ∨ codeUnit ≥ 0xa0) then
        some (.continued, { decoder with state := 4 })
      else decoder.phpDecodeUtf8Error 2
  | 3 =>
      let decoder := { decoder with utf8 := { decoder.utf8 with codeUnit2 := unit } }
      if codeUnit &&& 0xc0 = 0x80 ∧ (decoder.utf8.codeUnit1 ≠ (0xf0 : UInt8) ∨ codeUnit ≥ 0x90) ∧
          (decoder.utf8.codeUnit1 ≠ (0xf4 : UInt8) ∨ codeUnit < 0x90) then
        some (.continued, { decoder with state := 5 })
      else decoder.phpDecodeUtf8Error 2
  | 4 =>
      let decoder := { decoder with utf8 := { decoder.utf8 with codeUnit3 := unit } }
      if codeUnit &&& 0xc0 = 0x80 then
        some (.returned (some ((ofUChar decoder.utf8.codeUnit1 <<< 12) +
          (ofUChar decoder.utf8.codeUnit2 <<< 6) + codeUnit - 0xe2080)), { decoder with state := 0 })
      else decoder.phpDecodeUtf8Error 3
  | 5 =>
      let decoder := { decoder with utf8 := { decoder.utf8 with codeUnit3 := unit } }
      if codeUnit &&& 0xc0 = 0x80 then some (.continued, { decoder with state := 6 })
      else decoder.phpDecodeUtf8Error 3
  | 6 =>
      let decoder := { decoder with utf8 := { decoder.utf8 with codeUnit4 := unit } }
      if codeUnit &&& 0xc0 = 0x80 then
        some (.returned (some ((ofUChar decoder.utf8.codeUnit1 <<< 18) +
          (ofUChar decoder.utf8.codeUnit2 <<< 12) + (ofUChar decoder.utf8.codeUnit3 <<< 6) +
          codeUnit - 0x3c82080)), { decoder with state := 0 })
      else decoder.phpDecodeUtf8Error 4
  | _ => some (.returned none, decoder)

/-- `PH_UNICODE_UTF16_IS_HIGH_SURROGATE`. -/
def isHighSurrogate (codeUnit : ULong) : Prop := codeUnit ≥ 0xd800 ∧ codeUnit ≤ 0xdbff

/-- `PH_UNICODE_UTF16_IS_LOW_SURROGATE`. -/
def isLowSurrogate (codeUnit : ULong) : Prop := codeUnit ≥ 0xdc00 ∧ codeUnit ≤ 0xdfff

instance (codeUnit : ULong) : Decidable (isHighSurrogate codeUnit) :=
  inferInstanceAs (Decidable (_ ∧ _))

instance (codeUnit : ULong) : Decidable (isLowSurrogate codeUnit) :=
  inferInstanceAs (Decidable (_ ∧ _))

/-- What `switch (Decoder->State)` does with a code unit of UTF-16. -/
def decodeUtf16Unit (decoder : PhUnicodeDecoder) (codeUnit : ULong) :
    Option (Round × PhUnicodeDecoder) :=
  match decoder.state with
  | 0 =>
      if isHighSurrogate codeUnit then
        some (.continued, { decoder with
          utf16 := { decoder.utf16 with codeUnit := ushort codeUnit }
          state := 1 })
      else some (.returned (some codeUnit), decoder)
  | 1 =>
      let high := ofUShort decoder.utf16.codeUnit
      if isLowSurrogate codeUnit then
        some (.returned (some ((high <<< 10) + codeUnit - 0x35fdc00)), { decoder with state := 0 })
      else do
        let decoder ← decoder.phpUnreadUnicodeDecoder codeUnit
        some (.returned (some high), { decoder with state := 0 })
  | _ => some (.returned none, decoder)

/-- A round of the loop of `PhDecodeUnicodeDecoder`. -/
def decodeRound (decoder : PhUnicodeDecoder) : Option (Round × PhUnicodeDecoder) :=
  match decoder.encoding with
  | .utf8 => do
      match ← decoder.phpReadUnicodeDecoder with
      | (none, decoder) => some (.returned none, decoder)
      | (some codeUnit, decoder) => decoder.decodeUtf8Unit codeUnit
  | .utf16 => do
      match ← decoder.phpReadUnicodeDecoder with
      | (none, decoder) => some (.returned none, decoder)
      | (some codeUnit, decoder) => decoder.decodeUtf16Unit codeUnit
  | .utf32 => do
      let (codePoint, decoder) ← decoder.phpReadUnicodeDecoder
      some (.returned codePoint, decoder)
  | .other _ => some (.returned none, decoder)

/-- The loop; having more rounds than there can be is told apart from a result like a raise is. -/
def decodeLoop : Nat → PhUnicodeDecoder → Option (Option ULong × PhUnicodeDecoder)
  | 0, _ => none
  | rounds + 1, decoder => do
      match ← decoder.decodeRound with
      | (.continued, decoder) => decodeLoop rounds decoder
      | (.returned codePoint, decoder) => some (codePoint, decoder)

/-- `PhDecodeUnicodeDecoder`: each round that goes on has read a code unit. -/
def phDecodeUnicodeDecoder (decoder : PhUnicodeDecoder) :
    Option (Option ULong × PhUnicodeDecoder) :=
  decodeLoop (decoder.inputCount + 1) decoder

/-- `while (PhDecodeUnicodeDecoder(..))`, with a bound on the calls. -/
def drain : Nat → PhUnicodeDecoder → Option (List ULong × PhUnicodeDecoder)
  | 0, _ => none
  | calls + 1, decoder => do
      match ← decoder.phDecodeUnicodeDecoder with
      | (none, decoder) => some ([], decoder)
      | (some codePoint, decoder) =>
          let (codePoints, decoder) ← drain calls decoder
          some (codePoint :: codePoints, decoder)

/-- How the decoder is used: a code unit is written, and then the code points are taken. -/
def feed : PhUnicodeDecoder → List ULong → Option (List ULong × PhUnicodeDecoder)
  | decoder, [] => some ([], decoder)
  | decoder, codeUnit :: codeUnits => do
      let (_, decoder) ← decoder.phWriteUnicodeDecoder codeUnit
      let (codePoints, decoder) ← decoder.drain 5
      let (more, decoder) ← feed decoder codeUnits
      some (codePoints ++ more, decoder)

end PhUnicodeDecoder

/-! ## Encoding -/

def encodeUtf8 (codePoint : ULong) : Option (List UInt8) :=
  if codePoint < 0x80 then some [uchar codePoint]
  else if codePoint ≤ 0x7ff then
    some [uchar (codePoint >>> 6) + 0xc0, uchar (codePoint &&& 0x3f) + 0x80]
  else if codePoint ≤ 0xffff then
    some [uchar (codePoint >>> 12) + 0xe0, uchar ((codePoint >>> 6) &&& 0x3f) + 0x80,
      uchar (codePoint &&& 0x3f) + 0x80]
  else if codePoint ≤ phUnicodeMaxCodePoint then
    some [uchar (codePoint >>> 18) + 0xf0, uchar ((codePoint >>> 12) &&& 0x3f) + 0x80,
      uchar ((codePoint >>> 6) &&& 0x3f) + 0x80, uchar (codePoint &&& 0x3f) + 0x80]
  else none

def encodeUtf16 (codePoint : ULong) : Option (List UInt16) :=
  if codePoint < 0x10000 then some [ushort codePoint]
  else if codePoint ≤ phUnicodeMaxCodePoint then
    some [ushort (codePoint >>> 10) + 0xd7c0, ushort (codePoint &&& 0x3ff) + 0xdc00]
  else none

/-- `PhEncodeUnicode`: the code units, whose number is `*NumberOfCodeUnits`; without any it has
returned `FALSE`. -/
def phEncodeUnicode (encoding : PhUnicode) (codePoint : ULong) : Option (List ULong) :=
  match encoding with
  | .utf8 => (encodeUtf8 codePoint).map (·.map ofUChar)
  | .utf16 => (encodeUtf16 codePoint).map (·.map ofUShort)
  | .utf32 => some [codePoint]
  | .other _ => none

end SystemInformer.PhLib
