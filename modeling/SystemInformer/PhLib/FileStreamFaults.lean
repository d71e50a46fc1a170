import SystemInformer.PhLib.FileStream

/-!
# File streams whose system calls may fail (`filestream.c`)

The functions of the stream, with a list that tells which of the calls of the system fail: each
call takes the next outcome of the list, fails with its status or does what it does with the file,
and succeeds once the list is used up. A call that fails changes neither the file nor its position.

`failed` tells whether a call of the system has failed; it is not part of the program.
-/

namespace SystemInformer.PhLib

structure FaultyStream where
  stream : PhFileStream
  outcomes : List (Option NtStatus)
  failed : Bool

namespace FaultyStream

variable {α β : Type}

/-- What the program does without the system. -/
def on (s : FaultyStream) (f : PhFileStream → PhFileStream) : FaultyStream :=
  { s with stream := f s.stream }

/-- A call of the system, after which the stream is as `refused` if the outcome is a failure, and
else as `performed`. -/
def system (s : FaultyStream) (refused : PhFileStream)
    (performed : Except NtStatus α × PhFileStream) : Except NtStatus α × FaultyStream :=
  match s.outcomes with
  | some status :: outcomes => (.error status, ⟨refused, outcomes, true⟩)
  | outcomes => (performed.1, ⟨performed.2, outcomes.tail, s.failed || !performed.1.isOk⟩)

def andThen (r : Except NtStatus α × FaultyStream)
    (next : α → FaultyStream → Except NtStatus β × FaultyStream) :
    Except NtStatus β × FaultyStream :=
  match r with
  | (.error status, s) => (.error status, s)
  | (.ok a, s) => next a s

def phpReadFileStream (s : FaultyStream) (length : Nat) :
    Except NtStatus (List UInt8) × FaultyStream :=
  s.system s.stream (s.stream.phpReadFileStream length)

def phpWriteFileStream (s : FaultyStream) (data : List UInt8) : Except NtStatus Unit × FaultyStream :=
  s.system s.stream (s.stream.phpWriteFileStream data)

/-- `PhpSeekFileStream`: the position has been set when the file object is told. -/
def phpSeekFileStream (s : FaultyStream) (offset : LargeInteger) (origin : PhSeekOrigin) :
    Except NtStatus Unit × FaultyStream :=
  if s.stream.ownPosition then
    (.ok (), s.on fun t => { t with position := t.seekPosition offset origin })
  else
    s.system { s.stream with position := s.stream.seekPosition offset origin }
      (s.stream.phpSeekFileStream offset origin)

def phpFlushReadFileStream (s : FaultyStream) : Except NtStatus Unit × FaultyStream :=
  let sought : Except NtStatus Unit × FaultyStream :=
    if ulongSub s.stream.readLength s.stream.readPosition ≠ 0 then
      s.phpSeekFileStream (negLong (ulongSub s.stream.readLength s.stream.readPosition)) .seekCurrent
    else (.ok (), s)
  andThen sought fun _ s => (.ok (), s.on fun t => { t with readPosition := 0, readLength := 0 })

def phpFlushWriteFileStream (s : FaultyStream) : Except NtStatus Unit × FaultyStream :=
  andThen (s.phpWriteFileStream (s.stream.fromBuffer 0 s.stream.writePosition))
    fun _ s => (.ok (), s.on fun t => { t with writePosition := 0 })

/-- `PhReadFileStream` once there is something in the buffer. -/
def readFromBuffer (s : FaultyStream) (readLength length : Nat) :
    Except NtStatus (List UInt8) × FaultyStream :=
  let data := s.stream.fromBuffer s.stream.readPosition (min readLength length)
  let s := s.on fun t => { t with readPosition := t.readPosition + min readLength length }
  if min readLength length < length ∧ s.stream.readLength = s.stream.bufferLength then
    andThen (s.phpReadFileStream (length - min readLength length)) fun data' s =>
      (.ok (data ++ data'), s.on fun t => { t with readPosition := 0, readLength := 0 })
  else (.ok data, s)

/-- `PhReadFileStream` when the buffer has nothing to read and nothing to write. -/
def readFromFile (s : FaultyStream) (length : Nat) : Except NtStatus (List UInt8) × FaultyStream :=
  if s.stream.bufferLength ≤ length then
    (s.on fun t => { t with readPosition := 0, readLength := 0 }).phpReadFileStream length
  else
    andThen ((s.on PhFileStream.phpAllocateBufferFileStream).phpReadFileStream
      s.stream.bufferLength) fun data s =>
        if data = [] then (.ok [], s)
        else
          (s.on fun t => { t.copyToBuffer 0 data with
            readPosition := 0, readLength := data.length }).readFromBuffer data.length length

def phReadFileStream (s : FaultyStream) (length : Nat) :
    Except NtStatus (List UInt8) × FaultyStream :=
  if s.stream.unbuffered then s.phpReadFileStream length
  else if ulongSub s.stream.readLength s.stream.readPosition = 0 then
    andThen (if s.stream.writePosition ≠ 0 then s.phpFlushWriteFileStream else (.ok (), s))
      fun _ s => s.readFromFile length
  else s.readFromBuffer (ulongSub s.stream.readLength s.stream.readPosition) length

/-- `PhWriteFileStream` when nothing is in the buffer. -/
def writeToEmpty (s : FaultyStream) (data : List UInt8) : Except NtStatus Unit × FaultyStream :=
  if s.stream.bufferLength ≤ data.length then s.phpWriteFileStream data
  else if data.length ≠ 0 then
    (.ok (), s.on fun t => { t.phpAllocateBufferFileStream.copyToBuffer 0 data with
      writePosition := data.length })
  else (.ok (), s)

/-- `PhWriteFileStream` when something was written to the buffer. -/
def writeToBuffer (s : FaultyStream) (data : List UInt8) : Except NtStatus Unit × FaultyStream :=
  let availableLength := ulongSub s.stream.bufferLength s.stream.writePosition
  let writtenLength := min availableLength data.length
  let s := s.on fun t => { t.copyToBuffer t.writePosition (data.take writtenLength) with
    writePosition := t.writePosition + writtenLength }
  if availableLength ≠ 0 ∧ writtenLength = data.length then (.ok (), s)
  else andThen s.phpFlushWriteFileStream fun _ s => s.writeToEmpty (data.drop writtenLength)

def phWriteFileStream (s : FaultyStream) (data : List UInt8) : Except NtStatus Unit × FaultyStream :=
  if s.stream.unbuffered then s.phpWriteFileStream data
  else
    andThen (if s.stream.writePosition = 0 then s.phpFlushReadFileStream else (.ok (), s))
      fun _ s =>
        if s.stream.writePosition ≠ 0 then s.writeToBuffer data else s.writeToEmpty data

def phFlushFileStream (s : FaultyStream) : Except NtStatus Unit × FaultyStream :=
  andThen (if s.stream.writePosition ≠ 0 then s.phpFlushWriteFileStream else (.ok (), s))
    fun _ s => if s.stream.readPosition ≠ 0 then s.phpFlushReadFileStream else (.ok (), s)

def phSeekFileStream (s : FaultyStream) (offset : LargeInteger) (origin : PhSeekOrigin) :
    Except NtStatus Unit × FaultyStream :=
  if s.stream.writePosition ≠ 0 then
    andThen s.phpFlushWriteFileStream fun _ s => s.phpSeekFileStream offset origin
  else if s.stream.readPosition ≠ 0 then
    (s.on fun t => { t with readPosition := 0, readLength := 0 }).phpSeekFileStream
      (s.stream.seekOffset offset origin) origin
  else s.phpSeekFileStream offset origin

/-- A call of a user, by whether it succeeds. -/
def call (s : FaultyStream) : FileStreamCall → Except NtStatus Unit × FaultyStream
  | .read length => andThen (s.phReadFileStream length) fun _ s => (.ok (), s)
  | .write data => s.phWriteFileStream data
  | .seek offset origin => s.phSeekFileStream offset origin
  | .flush => s.phFlushFileStream
  | .getPosition => (.ok (), s)

end FaultyStream

/-- A stream that calls lead to from a new one, whatever fails in them. -/
inductive PhFileStream.Reachable : PhFileStream → Prop where
  | create (fileHandle : NtFile) (unbuffered ownPosition : Bool) (bufferLength : Nat) :
      Reachable (phCreateFileStream2 fileHandle unbuffered ownPosition bufferLength)
  | call {s : PhFileStream} (c : FileStreamCall) (outcomes : List (Option NtStatus))
      (h : Reachable s) : Reachable ((FaultyStream.mk s outcomes false).call c).2.stream

end SystemInformer.PhLib
