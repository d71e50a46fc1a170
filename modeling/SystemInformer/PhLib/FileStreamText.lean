import SystemInformer.Base.Words
import SystemInformer.PhLib.FileStream

/-!
# Text written to a file stream (`filestream.c`, `basesup.c`)

A string is written in blocks of a page, which are converted to UTF-8 one by one. A long string
is converted in a page buffer, if there is one, and otherwise each block in a string of its own.

The system's `RtlUnicodeToUTF8N` is a parameter, by what it makes of a string when there is room;
a buffer without room is refused. So is the function that writes to the stream.
-/

namespace SystemInformer.PhLib

variable {σ : Type*} (rtlUnicodeToUTF8N : List WChar → List UInt8)
  (phWriteFileStream : σ → List UInt8 → Except NtStatus Unit × σ)

def phConvertUtf16ToUtf8Buffer (maxBytesInUtf8String : Nat) (utf16String : List WChar) :
    Option (List UInt8) :=
  if (rtlUnicodeToUTF8N utf16String).length ≤ maxBytesInUtf8String then
    some (rtlUnicodeToUTF8N utf16String)
  else none

/-- `PhConvertUtf16ToUtf8Ex`; `PhConvertUtf16ToUtf8Size` gives the room. -/
def phConvertUtf16ToUtf8Ex (buffer : List WChar) : Option (List UInt8) :=
  phConvertUtf16ToUtf8Buffer rtlUnicodeToUTF8N (rtlUnicodeToUTF8N buffer).length buffer

/-- A block, converted in place or in a string of its own. -/
def convertBlock (inPlaceUtf8 : Bool) (block : List WChar) : Option (List UInt8) :=
  if inPlaceUtf8 then
    phConvertUtf16ToUtf8Buffer rtlUnicodeToUTF8N (pageSize / 2 * 4) block
  else phConvertUtf16ToUtf8Ex rtlUnicodeToUTF8N block

/-- The loop of `PhWriteStringAsUtf8FileStreamEx`. -/
def writeBlocks (inPlaceUtf8 : Bool) (fileStream : σ) (buffer : List WChar) :
    Except NtStatus Unit × σ :=
  if h : buffer = [] then (.ok (), fileStream)
  else
    have : (buffer.drop (pageSize / 2)).length < buffer.length := by
      have hlength := List.length_pos_iff.mpr h
      rw [List.length_drop, pageSize]
      omega
    match convertBlock rtlUnicodeToUTF8N inPlaceUtf8 (buffer.take (pageSize / 2)) with
    | none => (.error statusInvalidParameter, fileStream)
    | some utf8 =>
        match phWriteFileStream fileStream utf8 with
        | (.error status, fileStream) => (.error status, fileStream)
        | (.ok (), fileStream) =>
            writeBlocks inPlaceUtf8 fileStream (buffer.drop (pageSize / 2))
termination_by buffer.length
decreasing_by exact this

/-- `PhWriteStringAsUtf8FileStreamEx`; `hasPage` tells whether a page for the buffer is got. -/
def phWriteStringAsUtf8FileStreamEx (hasPage : Bool) (fileStream : σ) (buffer : List WChar) :
    Except NtStatus Unit × σ :=
  writeBlocks rtlUnicodeToUTF8N phWriteFileStream
    (decide (buffer.length * 2 > pageSize) && hasPage) fileStream buffer

end SystemInformer.PhLib
