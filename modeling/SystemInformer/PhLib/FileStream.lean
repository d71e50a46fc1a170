import SystemInformer.Base.Nt
import SystemInformer.Lib.Overlay

/-!
# Buffered file streams (`filestream.c`)

A stream reads ahead into its buffer, or collects what is written in it, and keeps the position
of the file object, which is ahead of the position of the reader by what has been read ahead
and behind that of the writer by what has been collected.

Sizes and cursors are natural numbers, and differences of them are taken as `ULONG`s are.
Positions are 64-bit words. The file is a list of bytes with a position: a read returns what is
there and fails with `STATUS_END_OF_FILE` where nothing is, and a write always succeeds. A page
for the buffer is always there.
-/

namespace SystemInformer.PhLib

def statusEndOfFile : NtStatus := 0xC0000011

abbrev LargeInteger := BitVec 64

/-- `left - right` for a `ULONG`. -/
def ulongSub (left right : Nat) : Nat :=
  if right ≤ left then left - right else left + 2 ^ 32 - right

/-- `-(LONG)value`, as a `LARGE_INTEGER`. -/
def negLong (value : Nat) : LargeInteger := (-BitVec.ofNat 32 value).signExtend 64

structure NtFile where
  content : List UInt8
  currentByteOffset : LargeInteger

def ntReadFile (file : NtFile) (length : Nat) (byteOffset : LargeInteger) :
    Except NtStatus (List UInt8) × NtFile :=
  if byteOffset.msb then (.error statusInvalidParameter, file)
  else if file.content.length ≤ byteOffset.toNat then (.error statusEndOfFile, file)
  else
    let data := (file.content.drop byteOffset.toNat).take length
    (.ok data, { file with currentByteOffset := byteOffset + BitVec.ofNat 64 data.length })

def ntWriteFile (file : NtFile) (data : List UInt8) (byteOffset : LargeInteger) :
    Except NtStatus Unit × NtFile :=
  if byteOffset.msb then (.error statusInvalidParameter, file)
  else
    (.ok (), ⟨Overlay.overlay 0 file.content byteOffset.toNat data,
      byteOffset + BitVec.ofNat 64 data.length⟩)

/-- `NtSetInformationFile` for the position. -/
def ntSetInformationFile (file : NtFile) (currentByteOffset : LargeInteger) :
    Except NtStatus Unit × NtFile :=
  if currentByteOffset.msb then (.error statusInvalidParameter, file)
  else (.ok (), { file with currentByteOffset := currentByteOffset })

inductive PhSeekOrigin where
  | seekStart
  | seekCurrent
  | seekEnd

structure PhFileStream where
  fileHandle : NtFile
  unbuffered : Bool
  ownPosition : Bool
  position : LargeInteger
  buffer : Option (List UInt8)
  bufferLength : Nat
  readPosition : Nat
  readLength : Nat
  writePosition : Nat

namespace PhFileStream

def phCreateFileStream2 (fileHandle : NtFile) (unbuffered ownPosition : Bool)
    (bufferLength : Nat) : PhFileStream where
  fileHandle := fileHandle
  unbuffered := unbuffered
  ownPosition := ownPosition
  position := 0
  buffer := none
  bufferLength := if unbuffered then 0 else bufferLength
  readPosition := 0
  readLength := 0
  writePosition := 0

/-- Where the file object reads and writes. -/
def byteOffset (s : PhFileStream) : LargeInteger :=
  if s.ownPosition then s.position else s.fileHandle.currentByteOffset

/-- `PhpAllocateBufferFileStream`, if there is no buffer yet. -/
def phpAllocateBufferFileStream (s : PhFileStream) : PhFileStream :=
  { s with buffer := some (s.buffer.getD (List.replicate s.bufferLength 0)) }

def copyToBuffer (s : PhFileStream) (offset : Nat) (data : List UInt8) : PhFileStream :=
  { s with buffer := s.buffer.map fun buffer => Overlay.overlay 0 buffer offset data }

def fromBuffer (s : PhFileStream) (offset length : Nat) : List UInt8 :=
  ((s.buffer.getD []).drop offset).take length

def phpReadFileStream (s : PhFileStream) (length : Nat) :
    Except NtStatus (List UInt8) × PhFileStream :=
  match ntReadFile s.fileHandle length s.byteOffset with
  | (.error status, fileHandle) => (.error status, { s with fileHandle := fileHandle })
  | (.ok data, fileHandle) =>
      (.ok data, { s with
        fileHandle := fileHandle, position := s.position + BitVec.ofNat 64 data.length })

def phpWriteFileStream (s : PhFileStream) (data : List UInt8) :
    Except NtStatus Unit × PhFileStream :=
  match ntWriteFile s.fileHandle data s.byteOffset with
  | (.error status, fileHandle) => (.error status, { s with fileHandle := fileHandle })
  | (.ok (), fileHandle) =>
      (.ok (), { s with
        fileHandle := fileHandle, position := s.position + BitVec.ofNat 64 data.length })

/-- The position that `PhpSeekFileStream` computes. -/
def seekPosition (s : PhFileStream) (offset : LargeInteger) : PhSeekOrigin → LargeInteger
  | .seekStart => offset
  | .seekCurrent => s.position + offset
  | .seekEnd => BitVec.ofNat 64 s.fileHandle.content.length + offset

def phpSeekFileStream (s : PhFileStream) (offset : LargeInteger) (origin : PhSeekOrigin) :
    Except NtStatus Unit × PhFileStream :=
  if s.ownPosition then (.ok (), { s with position := s.seekPosition offset origin })
  else
    match ntSetInformationFile s.fileHandle (s.seekPosition offset origin) with
    | (result, fileHandle) =>
        (result, { s with fileHandle := fileHandle, position := s.seekPosition offset origin })

def phpFlushReadFileStream (s : PhFileStream) : Except NtStatus Unit × PhFileStream :=
  let sought : Except NtStatus Unit × PhFileStream :=
    if ulongSub s.readLength s.readPosition ≠ 0 then
      s.phpSeekFileStream (negLong (ulongSub s.readLength s.readPosition)) .seekCurrent
    else (.ok (), s)
  match sought with
  | (.error status, s) => (.error status, s)
  | (.ok (), s) => (.ok (), { s with readPosition := 0, readLength := 0 })

def phpFlushWriteFileStream (s : PhFileStream) : Except NtStatus Unit × PhFileStream :=
  match s.phpWriteFileStream (s.fromBuffer 0 s.writePosition) with
  | (.error status, s) => (.error status, s)
  | (.ok (), s) => (.ok (), { s with writePosition := 0 })

/-- `PhReadFileStream` once there is something in the buffer: a part of the request is copied,
and when the buffer was full the rest is read from the file. -/
def readFromBuffer (s : PhFileStream) (readLength length : Nat) :
    Except NtStatus (List UInt8) × PhFileStream :=
  let data := s.fromBuffer s.readPosition (min readLength length)
  let s := { s with readPosition := s.readPosition + min readLength length }
  if min readLength length < length ∧ s.readLength = s.bufferLength then
    match s.phpReadFileStream (length - min readLength length) with
    | (.error status, s) => (.error status, s)
    | (.ok data', s) => (.ok (data ++ data'), { s with readPosition := 0, readLength := 0 })
  else (.ok data, s)

/-- `PhReadFileStream` when the buffer has nothing to read and nothing to write. -/
def readFromFile (s : PhFileStream) (length : Nat) : Except NtStatus (List UInt8) × PhFileStream :=
  if s.bufferLength ≤ length then
    { s with readPosition := 0, readLength := 0 }.phpReadFileStream length
  else
    match s.phpAllocateBufferFileStream.phpReadFileStream s.bufferLength with
    | (.error status, s) => (.error status, s)
    | (.ok data, s) =>
        if data = [] then (.ok [], s)
        else
          { s.copyToBuffer 0 data with
            readPosition := 0, readLength := data.length }.readFromBuffer data.length length

def phReadFileStream (s : PhFileStream) (length : Nat) :
    Except NtStatus (List UInt8) × PhFileStream :=
  if s.unbuffered then s.phpReadFileStream length
  else if ulongSub s.readLength s.readPosition = 0 then
    let flushed := if s.writePosition ≠ 0 then s.phpFlushWriteFileStream else (.ok (), s)
    match flushed with
    | (.error status, s) => (.error status, s)
    | (.ok (), s) => s.readFromFile length
  else s.readFromBuffer (ulongSub s.readLength s.readPosition) length

/-- `PhWriteFileStream` when nothing is in the buffer. -/
def writeToEmpty (s : PhFileStream) (data : List UInt8) : Except NtStatus Unit × PhFileStream :=
  if s.bufferLength ≤ data.length then s.phpWriteFileStream data
  else if data.length ≠ 0 then
    (.ok (), { s.phpAllocateBufferFileStream.copyToBuffer 0 data with writePosition := data.length })
  else (.ok (), s)

def phWriteFileStream (s : PhFileStream) (data : List UInt8) : Except NtStatus Unit × PhFileStream :=
  if s.unbuffered then s.phpWriteFileStream data
  else
    let flushed := if s.writePosition = 0 then s.phpFlushReadFileStream else (.ok (), s)
    match flushed with
    | (.error status, s) => (.error status, s)
    | (.ok (), s) =>
        if s.writePosition ≠ 0 then
          let availableLength := ulongSub s.bufferLength s.writePosition
          let writtenLength := min availableLength data.length
          let s := { s.copyToBuffer s.writePosition (data.take writtenLength) with
            writePosition := s.writePosition + writtenLength }
          if availableLength ≠ 0 ∧ writtenLength = data.length then (.ok (), s)
          else
            match s.phpFlushWriteFileStream with
            | (.error status, s) => (.error status, s)
            | (.ok (), s) => s.writeToEmpty (data.drop writtenLength)
        else s.writeToEmpty data

/-- `PhFlushFileStream`; what the operating system keeps back is not told apart from the file. -/
def phFlushFileStream (s : PhFileStream) : Except NtStatus Unit × PhFileStream :=
  let flushed := if s.writePosition ≠ 0 then s.phpFlushWriteFileStream else (.ok (), s)
  match flushed with
  | (.error status, s) => (.error status, s)
  | (.ok (), s) => if s.readPosition ≠ 0 then s.phpFlushReadFileStream else (.ok (), s)

def phGetPositionFileStream (s : PhFileStream) : LargeInteger :=
  s.position + BitVec.ofNat 64 (ulongSub s.readPosition s.readLength) +
    BitVec.ofNat 64 s.writePosition

/-- An offset from where the file object is, which is ahead by what was read ahead. -/
def seekOffset (s : PhFileStream) (offset : LargeInteger) : PhSeekOrigin → LargeInteger
  | .seekCurrent => offset - BitVec.ofNat 64 (ulongSub s.readLength s.readPosition)
  | .seekStart => offset
  | .seekEnd => offset

def phSeekFileStream (s : PhFileStream) (offset : LargeInteger) (origin : PhSeekOrigin) :
    Except NtStatus Unit × PhFileStream :=
  if s.writePosition ≠ 0 then
    match s.phpFlushWriteFileStream with
    | (.error status, s) => (.error status, s)
    | (.ok (), s) => s.phpSeekFileStream offset origin
  else if s.readPosition ≠ 0 then
    { s with readPosition := 0, readLength := 0 }.phpSeekFileStream (s.seekOffset offset origin) origin
  else s.phpSeekFileStream offset origin

end PhFileStream

inductive FileStreamCall where
  | read (length : Nat)
  | write (data : List UInt8)
  | seek (offset : LargeInteger) (origin : PhSeekOrigin)
  | flush
  | getPosition

/-- What a user learns from a call, and the content of the file after a flush. -/
inductive FileStreamAnswer where
  | read (result : Except NtStatus (List UInt8))
  | done (result : Except NtStatus Unit)
  | flushed (result : Except NtStatus Unit) (content : List UInt8)
  | position (position : LargeInteger)
deriving DecidableEq

namespace PhFileStream

def call (s : PhFileStream) : FileStreamCall → FileStreamAnswer × PhFileStream
  | .read length => ((s.phReadFileStream length).map .read id)
  | .write data => ((s.phWriteFileStream data).map .done id)
  | .seek offset origin => ((s.phSeekFileStream offset origin).map .done id)
  | .flush => (.flushed s.phFlushFileStream.1 s.phFlushFileStream.2.fileHandle.content,
      s.phFlushFileStream.2)
  | .getPosition => (.position s.phGetPositionFileStream, s)

def answers (s : PhFileStream) : List FileStreamCall → List FileStreamAnswer
  | [] => []
  | c :: calls => (s.call c).1 :: (s.call c).2.answers calls

end PhFileStream

end SystemInformer.PhLib
