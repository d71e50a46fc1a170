import SystemInformer.PhLib.StringRef

/-!
# Version resources (`util.c`)

A version resource is a tree of blocks. A block has its length, the length of its value, a type and
a key that ends with a terminator; then come the value and the blocks in it, each aligned. Nothing of
this is checked when a key is looked for. The root is at offset 0, and a block is its offset.

A read outside the resource ends a function with `none`, because nothing is known of what it gives.
`PhCountStringZ` loads its string in aligned blocks of 16 bytes; what counts as read is the string up
to its terminator.
-/

namespace SystemInformer.PhLib

def wordsOf : List UInt8 → List WChar
  | low :: high :: rest => UInt16.ofNat (low.toNat + 256 * high.toNat) :: wordsOf rest
  | _ => []

def charsAt (resource : List UInt8) (offset : Nat) : List WChar := wordsOf (resource.drop offset)

/-- Reads a `USHORT`. -/
def ushortAt (resource : List UInt8) (offset : Nat) : Option Nat :=
  (charsAt resource offset).head?.map UInt16.toNat

/-- `PhCountStringZ`. -/
def countStringZAt (resource : List UInt8) (offset : Nat) : Option Nat :=
  (charsAt resource offset).findIdx? (· == 0)

/-- `ALIGN_UP(..., ULONG)`. -/
def alignUpULong (address : Nat) : Nat := (address + 3) / 4 * 4

/-- The offset of `Key` in a block. -/
def offsetKey : Nat := 6

variable (resource : List UInt8) (towlower : WChar → WChar)

def phGetFileVersionInfoValue (versionInfo : Nat) : Option Nat :=
  (countStringZAt resource (versionInfo + offsetKey)).map fun count =>
    versionInfo + alignUpULong (offsetKey + 2 * (count + 1))

/-- `_wcsnicmp` of what stands in memory with all characters of a key; whether they are equal. -/
def wcsnicmpEqual : List WChar → List WChar → Option Bool
  | _, [] => some true
  | [], _ :: _ => none
  | c :: chars, k :: key =>
      if towlower c ≠ towlower k then some false
      else if towlower c = 0 then some true
      else wcsnicmpEqual chars key

def childHasKey (child : Nat) (key : List WChar) : Option Bool :=
  match wcsnicmpEqual towlower (charsAt resource (child + offsetKey)) key with
  | none => none
  | some false => some false
  | some true => ((charsAt resource (child + offsetKey))[key.length]?).map (· == 0)

/-- The loop of `PhGetFileVersionInfoKey`. -/
def childLoop (blockEnd : Nat) (key : List WChar) (child : Nat) : Option (Option Nat) :=
  if child < blockEnd then
    match childHasKey resource towlower child key with
    | none => none
    | some true => some (some child)
    | some false =>
        match ushortAt resource child with
        | none => none
        | some length =>
            if length = 0 then some none
            else childLoop blockEnd key (child + alignUpULong length)
  else some none
termination_by blockEnd - child
decreasing_by
  simp only [alignUpULong]
  omega

/-- `PhGetFileVersionInfoKey`, which gives the block or nothing. -/
def phGetFileVersionInfoKey (versionInfo : Nat) (key : List WChar) : Option (Option Nat) := do
  let value ← phGetFileVersionInfoValue resource versionInfo
  let valueLength ← ushortAt resource (versionInfo + 2)
  let type ← ushortAt resource (versionInfo + 4)
  let length ← ushortAt resource versionInfo
  let valueOffset := valueLength * if type ≠ 0 then 2 else 1
  childLoop resource towlower (versionInfo + length) key (value + alignUpULong valueOffset)

/-- `L"VarFileInfo"`. -/
def varfileBlockName : List WChar :=
  [0x56, 0x61, 0x72, 0x46, 0x69, 0x6c, 0x65, 0x49, 0x6e, 0x66, 0x6f]

/-- `L"StringFileInfo"`. -/
def blockInfoName : List WChar :=
  [0x53, 0x74, 0x72, 0x69, 0x6e, 0x67, 0x46, 0x69, 0x6c, 0x65, 0x49, 0x6e, 0x66, 0x6f]

/-- `PhGetFileVersionVarFileInfoValue`, which gives the value and its length. -/
def phGetFileVersionVarFileInfoValue (keyName : List WChar) : Option (Option (Nat × Nat)) := do
  match ← phGetFileVersionInfoKey resource towlower 0 varfileBlockName with
  | none => some none
  | some varfileBlockInfo =>
      match ← phGetFileVersionInfoKey resource towlower varfileBlockInfo keyName with
      | none => some none
      | some varfileBlockValue => do
          let bufferLength ← ushortAt resource (varfileBlockValue + 2)
          let buffer ← phGetFileVersionInfoValue resource varfileBlockValue
          some (some (buffer, bufferLength))

def langNameString (langCodePage : ULong) : List WChar :=
  (List.range 8).map fun i =>
    let digit := langCodePage.toNat / 16 ^ (7 - i) % 16
    UInt16.ofNat (if digit < 10 then 0x30 + digit else 0x41 + (digit - 10))

/-- `PhGetFileVersionInfoString2`, which gives the characters of the string. -/
def phGetFileVersionInfoString2 (langCodePage : ULong) (keyName : List WChar) :
    Option (Option (List WChar)) := do
  match ← phGetFileVersionInfoKey resource towlower 0 blockInfoName with
  | none => some none
  | some blockStringInfo =>
      match ← phGetFileVersionInfoKey resource towlower blockStringInfo
        (langNameString langCodePage) with
      | none => some none
      | some blockLangInfo =>
          match ← phGetFileVersionInfoKey resource towlower blockLangInfo keyName with
          | none => some none
          | some stringNameBlockInfo => do
              let valueLength ← ushortAt resource (stringNameBlockInfo + 2)
              if valueLength ≤ 2 then some none
              else do
                let value ← phGetFileVersionInfoValue resource stringNameBlockInfo
                let count ← countStringZAt resource value
                some (some ((charsAt resource value).take count))

end SystemInformer.PhLib
