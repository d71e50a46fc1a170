import SystemInformer.Base.Words

/-!
# Counted strings (`basesup.c`)

A `PH_STRINGREF` counts its characters. Behind them other characters stand in memory, up to one
that terminates a C string; the functions that only look at counted characters do not see them.

With intrinsics the functions load blocks of 16 bytes: comparing a block with a pattern gives a
mask with two equal bits for each character, and the lowest or the highest bit that is set is
looked for. Without, a comparison goes by words of the size of a pointer, and a search is left to
the C runtime. Sizes in bytes are kept where the code computes with them.

`PhUpcaseUnicodeChar` is a table of the system and a parameter.
-/

namespace SystemInformer.PhLib

structure Processor where
  hasIntrinsics : Bool
  is64Bit : Bool

/-- `sizeof(ULONG_PTR)`. -/
def Processor.sizeofULongPtr (processor : Processor) : Nat := if processor.is64Bit then 8 else 4

/-- `PH_STRINGREF`, with what stands in memory behind the string. -/
structure PhStringRef where
  hasBuffer : Bool
  chars : List WChar
  after : List WChar
  null_chars : hasBuffer = false → chars = []

/-- The string that a terminated `PH_STRING` holds. -/
def PhStringRef.ofChars (chars : List WChar) : PhStringRef :=
  ⟨true, chars, [], fun h => absurd h.symm Bool.false_ne_true⟩

variable (processor : Processor) (phUpcaseUnicodeChar : WChar → WChar)

/-- The loop at `CompareCharacters`. -/
def compareCharacters (ignoreCase : Bool) : Nat → List WChar → List WChar → Bool
  | 0, _, _ => true
  | l1 + 1, s1, s2 =>
      let c1 := s1.headD 0
      let c2 := s2.headD 0
      if c1 ≠ c2 ∧ (ignoreCase = true → phUpcaseUnicodeChar c1 ≠ phUpcaseUnicodeChar c2) then false
      else compareCharacters ignoreCase l1 s1.tail s2.tail

/-- The loop over blocks of `block` characters, of which `length` are left and then `rest`
characters. -/
def equalBlocks (ignoreCase : Bool) (block rest : Nat) :
    Nat → List WChar → List WChar → Bool
  | 0, s1, s2 => compareCharacters phUpcaseUnicodeChar ignoreCase rest s1 s2
  | length + 1, s1, s2 =>
      if s1.take block ≠ s2.take block then
        if ignoreCase then
          compareCharacters phUpcaseUnicodeChar ignoreCase ((length + 1) * block + rest) s1 s2
        else false
      else equalBlocks ignoreCase block rest length (s1.drop block) (s2.drop block)

def phEqualStringRef (string1 string2 : List WChar) (ignoreCase : Bool) : Bool :=
  if string1.length ≠ string2.length then false
  else
    let block := (if processor.hasIntrinsics then 16 else processor.sizeofULongPtr) / 2
    equalBlocks phUpcaseUnicodeChar ignoreCase block (string1.length % block)
      (string1.length / block) string1 string2

/-- The mask of a block: `PhMoveMaskINT128by8` after `PhCompareEqINT128by16`. -/
def compareMask (character : WChar) (block : List WChar) : List Bool :=
  block.flatMap fun c => [c == character, c == character]

def bitScanForward (mask : List Bool) : Option Nat := mask.findIdx? id

def bitScanReverse (mask : List Bool) : Option Nat :=
  (mask.reverse.findIdx? id).map fun i => mask.length - 1 - i

/-- `wcschr`, which looks at the terminator too. -/
def wcschr (memory : List WChar) (character : WChar) : Option Nat :=
  (memory.takeWhile (· ≠ 0) ++ [0]).findIdx? (· == character)

def wcsrchr (memory : List WChar) (character : WChar) : Option Nat :=
  let string := memory.takeWhile (· ≠ 0) ++ [0]
  (string.reverse.findIdx? (· == character)).map fun i => string.length - 1 - i

/-- The loop of `PhFindCharInStringRef` over the blocks, of a string of `size` bytes. -/
def findCharBlocks (size : Nat) (character : WChar) : Nat → List WChar → Option Nat
  | 0, _ => none
  | length16 + 1, buffer =>
      match bitScanForward (compareMask character (buffer.take 8)) with
      | some index => some ((size - (length16 + 1) * 16) / 2 - size / 2 % 8 + index / 2)
      | none => findCharBlocks size character length16 (buffer.drop 8)

def findCharRest (size : Nat) (matches' : WChar → Bool) : Nat → List WChar → Option Nat
  | 0, _ => none
  | length + 1, buffer =>
      if matches' (buffer.headD 0) then some (size / 2 - (length + 1))
      else findCharRest size matches' length buffer.tail

/-- `PhFindCharInStringRef`; no index is `SIZE_MAX`. -/
def phFindCharInStringRef (string : PhStringRef) (character : WChar) (ignoreCase : Bool) :
    Option Nat :=
  let size := 2 * string.chars.length
  let length := size / 2
  if ignoreCase then
    findCharRest size (fun c => phUpcaseUnicodeChar c == phUpcaseUnicodeChar character) length
      string.chars
  else if processor.hasIntrinsics then
    match findCharBlocks size character (size / 16) string.chars with
    | some index => some index
    | none =>
        findCharRest size (· == character) (length % 8) (string.chars.drop (size / 16 * 8))
  else if string.hasBuffer then wcschr (string.chars ++ string.after) character
  else findCharRest size (· == character) length string.chars

/-- The loop of `PhFindLastCharInStringRef` over the blocks before `buffer`; `length` characters
stand before all of them. -/
def findLastCharBlocks (string : List WChar) (character : WChar) (length : Nat) :
    Nat → Nat → Option Nat
  | 0, _ => none
  | length16 + 1, buffer =>
      match bitScanReverse (compareMask character ((string.drop (buffer - 8)).take 8)) with
      | some index => some (length16 * 16 / 2 + length + index / 2)
      | none => findLastCharBlocks string character length length16 (buffer - 8)

/-- The loop over the characters that are left, which are the first ones. -/
def findLastCharRest (string : List WChar) (matches' : WChar → Bool) : Nat → Option Nat
  | 0 => none
  | length + 1 =>
      if matches' (string.getD length 0) then some length
      else findLastCharRest string matches' length

def phFindLastCharInStringRef (string : PhStringRef) (character : WChar) (ignoreCase : Bool) :
    Option Nat :=
  let size := 2 * string.chars.length
  let length := size / 2
  if ignoreCase then
    findLastCharRest string.chars
      (fun c => phUpcaseUnicodeChar c == phUpcaseUnicodeChar character) length
  else if processor.hasIntrinsics then
    match findLastCharBlocks string.chars character (length % 8) (size / 16) length with
    | some index => some index
    | none => findLastCharRest string.chars (· == character) (length % 8)
  else if string.hasBuffer then wcsrchr (string.chars ++ string.after) character
  else findLastCharRest string.chars (· == character) length

/-- The loop of `PhFindStringInStringRef`: `i` places from `position` on, where `buffer` is. -/
def findStringLoop (ignoreCase : Bool) (c : WChar) (rest : List WChar) :
    Nat → Nat → List WChar → Option Nat
  | 0, _, _ => none
  | i + 1, position, buffer =>
      let d := buffer.headD 0
      if (if ignoreCase then phUpcaseUnicodeChar d else d) = c ∧
          phEqualStringRef processor phUpcaseUnicodeChar (buffer.tail.take rest.length) rest
            ignoreCase then
        some position
      else findStringLoop ignoreCase c rest i (position + 1) buffer.tail

def phFindStringInStringRef (string subString : List WChar) (ignoreCase : Bool) : Option Nat :=
  if string.length < subString.length then none
  else
    match subString with
    | [] => some 0
    | c :: rest =>
        findStringLoop processor phUpcaseUnicodeChar ignoreCase
          (if ignoreCase then phUpcaseUnicodeChar c else c) rest
          (string.length - (rest.length + 1) + 1) 0 string

/-- `PhSplitStringRefAtChar`, of a string with a terminator behind it. -/
def phSplitStringRefAtChar (input : List WChar) (separator : WChar) :
    Option (List WChar × List WChar) :=
  match phFindCharInStringRef processor phUpcaseUnicodeChar (.ofChars input) separator false with
  | none => none
  | some index => some (input.take index, input.drop (index + 1))

theorem length_phSplitStringRefAtChar {input currentPart remainingPart : List WChar}
    {separator : WChar} (hinput : input ≠ [])
    (h : phSplitStringRefAtChar processor phUpcaseUnicodeChar input separator =
      some (currentPart, remainingPart)) : remainingPart.length < input.length := by
  rw [phSplitStringRefAtChar] at h
  split at h
  · cases h
  · cases h
    have hpos := List.length_pos_iff.mpr hinput
    rw [List.length_drop]
    omega

end SystemInformer.PhLib
