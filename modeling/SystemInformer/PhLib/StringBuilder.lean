import SystemInformer.Base.Words
import SystemInformer.Lib.Bytes
import SystemInformer.Lib.Cells

/-!
# `basesup.c`: string builders

A string builder owns a string whose buffer has room for `AllocatedLength` bytes and a null
terminator, and keeps the length of what is in use in the string. Lengths are in bytes and indices
in characters, so the buffer is modelled by its bytes. The old string of a resize is taken to be
replaced at once, and a string object has the room that it was created with. An access outside of
the buffer has no result.
-/

namespace SystemInformer.PhLib

open Cells

def charBytes (s : List WChar) : List UInt8 := s.flatMap fun c => Bytes.leEncode 2 c.toNat

/-- `UNICODE_NULL` in memory. -/
def nullBytes : List (Option UInt8) := [some 0, some 0]

/-- `PH_STRING_BUILDER`, with `String->Length` and the bytes of `String->Buffer`. -/
structure PhStringBuilder where
  allocatedLength : ULongPtr
  length : ULongPtr
  buffer : List (Option UInt8)

/-- `PhCreateStringEx` without a source. -/
def phCreateStringEx (length : ULongPtr) : List (Option UInt8) :=
  List.replicate length.toNat none ++ nullBytes

namespace PhStringBuilder

def phInitializeStringBuilder (initialCapacity : ULongPtr) : Option PhStringBuilder := do
  -- Make sure the initial capacity is even, as required for all string objects.
  let initialCapacity :=
    if initialCapacity &&& 1 ≠ 0 then initialCapacity + 1 else initialCapacity
  -- Write the null terminator.
  let buffer ← write (phCreateStringEx initialCapacity) 0 nullBytes
  some ⟨initialCapacity, 0, buffer⟩

def phpResizeStringBuilder (stringBuilder : PhStringBuilder) (newCapacity : ULongPtr) :
    Option PhStringBuilder := do
  -- Double the string size. If that still isn't enough room, just use the new length.
  let allocatedLength := stringBuilder.allocatedLength * 2
  let allocatedLength := if allocatedLength < newCapacity then newCapacity else allocatedLength
  -- Copy the old string to the new string, including the null terminator.
  let size := (stringBuilder.length + 2).toNat
  if size ≤ stringBuilder.buffer.length then
    let buffer ← write (phCreateStringEx allocatedLength) 0 (stringBuilder.buffer.take size)
    some ⟨allocatedLength, stringBuilder.length, buffer⟩
  else none

/-- The test of every function that makes the string longer. -/
def reserve (stringBuilder : PhStringBuilder) (length : ULongPtr) : Option PhStringBuilder :=
  -- See if we need to re-allocate the string.
  if stringBuilder.allocatedLength < stringBuilder.length + length then
    phpResizeStringBuilder stringBuilder (stringBuilder.length + length)
  else some stringBuilder

/-- The length is set and `PhpWriteNullTerminatorStringBuilder` is called. -/
def terminate (stringBuilder : PhStringBuilder) (length : ULongPtr) : Option PhStringBuilder := do
  let buffer ← write stringBuilder.buffer length.toNat nullBytes
  some { stringBuilder with length, buffer }

def store (stringBuilder : PhStringBuilder) (position : Nat) (bytes : List UInt8) :
    Option PhStringBuilder := do
  let buffer ← write stringBuilder.buffer position (bytes.map some)
  some { stringBuilder with buffer }

/-- The bytes of a string are stored; without a string the room is left as it is. -/
def copyString (stringBuilder : PhStringBuilder) (position : Nat) (length : ULongPtr) :
    Option (List WChar) → Option PhStringBuilder
  | some string => stringBuilder.store position ((charBytes string).take length.toNat)
  | none => some stringBuilder

def phAppendStringBuilderEx (stringBuilder : PhStringBuilder) (string : Option (List WChar))
    (length : ULongPtr) : Option PhStringBuilder :=
  if length = 0 then some stringBuilder
  else do
    let stringBuilder ← stringBuilder.reserve length
    -- Copy the string, add the length, then write the null terminator.
    let stringBuilder ← stringBuilder.copyString stringBuilder.length.toNat length string
    stringBuilder.terminate (stringBuilder.length + length)

def phAppendCharStringBuilder (stringBuilder : PhStringBuilder) (character : WChar) :
    Option PhStringBuilder := do
  let stringBuilder ← stringBuilder.reserve 2
  let stringBuilder ← stringBuilder.store stringBuilder.length.toNat (charBytes [character])
  stringBuilder.terminate (stringBuilder.length + 2)

def phAppendCharStringBuilder2 (stringBuilder : PhStringBuilder) (character : WChar)
    (count : ULongPtr) : Option PhStringBuilder :=
  if count = 0 then some stringBuilder
  else do
    let stringBuilder ← stringBuilder.reserve (count * 2)
    let stringBuilder ← stringBuilder.store stringBuilder.length.toNat
      (charBytes (List.replicate count.toNat character))
    stringBuilder.terminate (stringBuilder.length + count * 2)

/-- The characters from an index on are moved to make space for a string. -/
def createSpace (stringBuilder : PhStringBuilder) (index length : ULongPtr) :
    Option PhStringBuilder :=
  if index * 2 < stringBuilder.length then do
    let buffer ← move stringBuilder.buffer (2 * (index + length / 2).toNat) (2 * index.toNat)
      (stringBuilder.length - index * 2).toNat
    some { stringBuilder with buffer }
  else some stringBuilder

def phInsertStringBuilderEx (stringBuilder : PhStringBuilder) (index : ULongPtr)
    (string : Option (List WChar)) (length : ULongPtr) : Option PhStringBuilder :=
  if length = 0 then some stringBuilder
  else do
    let stringBuilder ← stringBuilder.reserve length
    let stringBuilder ← stringBuilder.createSpace index length
    -- Copy the new string.
    let stringBuilder ← stringBuilder.copyString (2 * index.toNat) length string
    stringBuilder.terminate (stringBuilder.length + length)

def phRemoveStringBuilder (stringBuilder : PhStringBuilder) (startIndex count : ULongPtr) :
    Option PhStringBuilder := do
  -- Overwrite the removed part with the part behind it.
  let buffer ← move stringBuilder.buffer (2 * startIndex.toNat) (2 * (startIndex + count).toNat)
    (stringBuilder.length - (count + startIndex) * 2).toNat
  { stringBuilder with buffer }.terminate (stringBuilder.length - count * 2)

end PhStringBuilder

inductive StringBuilderCall where
  | append (string : Option (List WChar)) (length : ULongPtr)
  | appendChar (character : WChar)
  | appendChars (character : WChar) (count : ULongPtr)
  | insert (index : ULongPtr) (string : Option (List WChar)) (length : ULongPtr)
  | remove (startIndex count : ULongPtr)

def PhStringBuilder.perform (stringBuilder : PhStringBuilder) :
    StringBuilderCall → Option PhStringBuilder
  | .append string length => stringBuilder.phAppendStringBuilderEx string length
  | .appendChar character => stringBuilder.phAppendCharStringBuilder character
  | .appendChars character count => stringBuilder.phAppendCharStringBuilder2 character count
  | .insert index string length => stringBuilder.phInsertStringBuilderEx index string length
  | .remove startIndex count => stringBuilder.phRemoveStringBuilder startIndex count

end SystemInformer.PhLib
