import SystemInformer.PhLib.FileStreamFaults
import SystemInformer.Proofs.FileStream

/-!
# A failure keeps what was written to a stream

While something is in the buffer to be written, nothing was read ahead, so every call flushes
first, or copies to the buffer. If the flush fails, the buffer, the position and the file are as
they were, but for what a write has copied behind the bytes that were there. If a call fails after
the flush, the bytes are in the file, and the buffer is empty. So a flush that succeeds later
leaves them in the file once, where the first one would have put them.
-/

namespace SystemInformer.PhLib

def FileStreamCall.data : FileStreamCall → List UInt8
  | .write data => data
  | _ => []

namespace PhFileStream

/-- The buffer, if there is one, has its length. -/
def Allocated (s : PhFileStream) : Prop :=
  ∀ buffer, s.buffer = some buffer → buffer.length = s.bufferLength

/-- What is in the buffer to be written is all that the buffer is used for. -/
structure Collects (s : PhFileStream) : Prop where
  allocated : s.Allocated
  collects : s.writePosition ≠ 0 → s.unbuffered = false ∧ s.readPosition = 0 ∧ s.readLength = 0 ∧
    s.writePosition ≤ s.bufferLength ∧ s.buffer.isSome

/-- `t` has nothing to write, and the file has what it had in `s`. -/
structure Rests (s t : PhFileStream) : Prop where
  written : t.writePosition = 0
  allocated : t.Allocated
  content : t.fileHandle.content = s.fileHandle.content

/-- `t` has what was to be written in `s`, with `merged` behind it. -/
structure Keeps (s t : PhFileStream) (merged : List UInt8) : Prop where
  position : t.position = s.position
  fileHandle : t.fileHandle = s.fileHandle
  ownPosition : t.ownPosition = s.ownPosition
  writePosition : t.writePosition = s.writePosition + merged.length
  unwritten : t.unwritten = s.unwritten ++ merged

/-- What was to be written in `s` has been written once, with `merged` behind it. -/
structure Wrote (s t : PhFileStream) (merged : List UInt8) : Prop where
  writePosition : t.writePosition = 0
  content : t.fileHandle.content =
    Overlay.overlay 0 s.fileHandle.content s.byteOffset.toNat (s.unwritten ++ merged)

variable {s t u : PhFileStream}

theorem Rests.collects (h : Rests s t) : Collects t := ⟨h.allocated, fun hno => absurd h.written hno⟩

theorem Rests.refl (h : s.Allocated) (hwrite : s.writePosition = 0) : Rests s s := ⟨hwrite, h, rfl⟩

theorem Rests.cursors (h : Rests s t) (readPosition readLength : Nat) :
    Rests s { t with readPosition := readPosition, readLength := readLength } :=
  ⟨h.written, h.allocated, h.content⟩

theorem Wrote.of_rests {merged : List UInt8} (h : Wrote s t merged) (hrests : Rests t u) :
    Wrote s u merged := ⟨hrests.written, hrests.content.trans h.content⟩

theorem allocated_allocate (h : s.Allocated) : s.phpAllocateBufferFileStream.Allocated := by
  intro buffer hbuffer
  rw [← Option.some.inj hbuffer]
  cases hs : s.buffer with
  | none => exact List.length_replicate
  | some buffer => exact h buffer hs

theorem allocated_copyToBuffer {offset : Nat} {data : List UInt8} (h : s.Allocated)
    (hfits : offset + data.length ≤ s.bufferLength) : (s.copyToBuffer offset data).Allocated := by
  intro buffer hbuffer
  obtain ⟨old, hold, rfl⟩ := Option.map_eq_some_iff.mp hbuffer
  have hlength := h old hold
  show (Overlay.overlay 0 old offset data).length = s.bufferLength
  rw [Overlay.length_overlay]
  split
  · exact hlength
  · omega

theorem fromBuffer_copyToBuffer {offset : Nat} {data : List UInt8} (h : s.Allocated)
    (hsome : s.buffer.isSome) (hfits : offset + data.length ≤ s.bufferLength) :
    (s.copyToBuffer offset data).fromBuffer 0 (offset + data.length) =
      s.fromBuffer 0 offset ++ data := by
  obtain ⟨buffer, hbuffer⟩ := Option.isSome_iff_exists.mp hsome
  have hlength := h buffer hbuffer
  have hcopied : (s.copyToBuffer offset data).buffer =
      some (Overlay.overlay 0 buffer offset data) := by
    rw [copyToBuffer, hbuffer]
    rfl
  rw [fromBuffer, hcopied, fromBuffer, hbuffer]
  show ((Overlay.overlay 0 buffer offset data).drop 0).take (offset + data.length) =
    (buffer.drop 0).take offset ++ data
  rw [List.drop_zero, List.drop_zero, Overlay.overlay]
  split
  · next hnil => rw [hnil, List.length_nil, Nat.add_zero, List.append_nil]
  · have hgap : offset - buffer.length = 0 := by omega
    have hhead : (buffer.take offset ++ data).length = offset + data.length := by
      rw [List.length_append, List.length_take]
      omega
    rw [hgap, List.replicate_zero, List.append_nil, ← hhead, List.take_left]

/-! ## The system -/

theorem phpWriteFileStream_cases (s : PhFileStream) (data : List UInt8) :
    (∃ status, s.phpWriteFileStream data = (.error status, s)) ∨
      ∃ position position', s.phpWriteFileStream data = (.ok (), { s with
        fileHandle := ⟨Overlay.overlay 0 s.fileHandle.content s.byteOffset.toNat data, position⟩
        position := position' }) := by
  rw [phpWriteFileStream, ntWriteFile]
  by_cases hnegative : s.byteOffset.msb = true
  · rw [if_pos hnegative]
    exact .inl ⟨_, rfl⟩
  · rw [if_neg hnegative]
    exact .inr ⟨_, _, rfl⟩

theorem phpReadFileStream_cases (s : PhFileStream) (length : Nat) :
    (∃ status, s.phpReadFileStream length = (.error status, s)) ∨
      ∃ data position position', data.length ≤ length ∧
        s.phpReadFileStream length = (.ok data, { s with
          fileHandle := ⟨s.fileHandle.content, position⟩, position := position' }) := by
  rw [phpReadFileStream, ntReadFile]
  by_cases hnegative : s.byteOffset.msb = true
  · rw [if_pos hnegative]
    exact .inl ⟨_, rfl⟩
  · rw [if_neg hnegative]
    by_cases hend : s.fileHandle.content.length ≤ s.byteOffset.toNat
    · rw [if_pos hend]
      exact .inl ⟨_, rfl⟩
    · rw [if_neg hend]
      exact .inr ⟨_, _, _, List.length_take_le .., rfl⟩

theorem phpSeekFileStream_cases (s : PhFileStream) (offset : LargeInteger)
    (origin : PhSeekOrigin) : ∃ result position position',
      s.phpSeekFileStream offset origin = (result, { s with
        fileHandle := ⟨s.fileHandle.content, position⟩, position := position' }) := by
  rw [phpSeekFileStream]
  by_cases hown : s.ownPosition = true
  · rw [if_pos hown]
    exact ⟨_, s.fileHandle.currentByteOffset, _, rfl⟩
  · rw [if_neg hown, ntSetInformationFile]
    by_cases hnegative : (s.seekPosition offset origin).msb = true
    · rw [if_pos hnegative]
      exact ⟨_, s.fileHandle.currentByteOffset, _, rfl⟩
    · rw [if_neg hnegative]
      exact ⟨_, _, _, rfl⟩

end PhFileStream

namespace FaultyStream

open PhFileStream

variable {s : FaultyStream} {α β : Type}

theorem system_cases (s : FaultyStream) (refused : PhFileStream)
    (performed : Except NtStatus α × PhFileStream) :
    (∃ status outcomes,
      s.system refused performed = (.error status, ⟨refused, outcomes, true⟩)) ∨
      ∃ outcomes, s.system refused performed =
        (performed.1, ⟨performed.2, outcomes, s.failed || !performed.1.isOk⟩) := by
  rw [system]
  split
  · exact .inl ⟨_, _, rfl⟩
  · exact .inr ⟨_, rfl⟩

theorem write_cases (s : FaultyStream) (data : List UInt8) :
    (∃ status outcomes, s.phpWriteFileStream data = (.error status, ⟨s.stream, outcomes, true⟩)) ∨
      ∃ position position' outcomes, s.phpWriteFileStream data = (.ok (), ⟨{ s.stream with
        fileHandle :=
          ⟨Overlay.overlay 0 s.stream.fileHandle.content s.stream.byteOffset.toNat data, position⟩
        position := position' }, outcomes, s.failed⟩) := by
  rw [phpWriteFileStream]
  rcases system_cases s s.stream (s.stream.phpWriteFileStream data) with hrefused | ⟨outcomes, hr⟩
  · exact .inl hrefused
  rcases s.stream.phpWriteFileStream_cases data with ⟨status, hw⟩ | ⟨position, position', hw⟩
  · rw [hw] at hr
    refine .inl ⟨status, outcomes, ?_⟩
    rw [hw, hr]
    simp [Except.isOk, Except.toBool]
  · rw [hw] at hr
    refine .inr ⟨position, position', outcomes, ?_⟩
    rw [hw, hr]
    simp [Except.isOk, Except.toBool]

theorem read_cases (s : FaultyStream) (length : Nat) :
    (∃ status outcomes, s.phpReadFileStream length = (.error status, ⟨s.stream, outcomes, true⟩)) ∨
      ∃ data position position' outcomes, data.length ≤ length ∧
        s.phpReadFileStream length = (.ok data, ⟨{ s.stream with
          fileHandle := ⟨s.stream.fileHandle.content, position⟩
          position := position' }, outcomes, s.failed⟩) := by
  rw [phpReadFileStream]
  rcases system_cases s s.stream (s.stream.phpReadFileStream length) with hrefused | ⟨outcomes, hr⟩
  · exact .inl hrefused
  rcases s.stream.phpReadFileStream_cases length with
    ⟨status, hread⟩ | ⟨data, position, position', hdata, hread⟩
  · rw [hread] at hr
    refine .inl ⟨status, outcomes, ?_⟩
    rw [hread, hr]
    simp [Except.isOk, Except.toBool]
  · rw [hread] at hr
    refine .inr ⟨data, position, position', outcomes, hdata, ?_⟩
    rw [hread, hr]
    simp [Except.isOk, Except.toBool]

theorem seek_cases (s : FaultyStream) (offset : LargeInteger) (origin : PhSeekOrigin) :
    ∃ result position position' outcomes failed,
      s.phpSeekFileStream offset origin = (result, ⟨{ s.stream with
        fileHandle := ⟨s.stream.fileHandle.content, position⟩
        position := position' }, outcomes, failed⟩) ∧
      (result.isOk → failed = s.failed) := by
  rw [phpSeekFileStream]
  by_cases hown : s.stream.ownPosition = true
  · rw [if_pos hown]
    exact ⟨_, s.stream.fileHandle.currentByteOffset, _, _, _, rfl, fun _ => rfl⟩
  · rw [if_neg hown]
    rcases system_cases s { s.stream with position := s.stream.seekPosition offset origin }
        (s.stream.phpSeekFileStream offset origin) with ⟨status, outcomes, hr⟩ | ⟨outcomes, hr⟩
    · exact ⟨_, s.stream.fileHandle.currentByteOffset, _, _, _, hr, fun hok => by cases hok⟩
    · obtain ⟨result, position, position', hseek⟩ := s.stream.phpSeekFileStream_cases offset origin
      rw [hseek] at hr
      rw [hseek, hr]
      exact ⟨_, _, _, _, _, rfl, fun hok => by simp [hok]⟩

/-! ## What a call leaves when there is nothing to write -/

theorem andThen_rests {r : Except NtStatus α × FaultyStream}
    {next : α → FaultyStream → Except NtStatus β × FaultyStream} {t : PhFileStream}
    (hr : Rests t r.2.stream)
    (hnext : ∀ a s', r = (.ok a, s') → Rests t s'.stream → Rests t (next a s').2.stream) :
    Rests t (andThen r next).2.stream := by
  rw [andThen.eq_def]
  split
  · exact hr
  · next a s' => exact hnext a s' rfl hr

theorem phpReadFileStream_rests {t : PhFileStream} (h : Rests t s.stream) (length : Nat) :
    Rests t (s.phpReadFileStream length).2.stream := by
  rcases s.read_cases length with ⟨status, outcomes, hr⟩ | ⟨data, position, position', outcomes, -, hr⟩
  · rw [hr]
    exact h
  · rw [hr]
    exact ⟨h.written, h.allocated, h.content⟩

theorem phpSeekFileStream_rests {t : PhFileStream} (h : Rests t s.stream) (offset : LargeInteger)
    (origin : PhSeekOrigin) : Rests t (s.phpSeekFileStream offset origin).2.stream := by
  obtain ⟨result, position, position', outcomes, failed, hr, -⟩ := s.seek_cases offset origin
  rw [hr]
  exact ⟨h.written, h.allocated, h.content⟩

theorem phpFlushReadFileStream_rests {t : PhFileStream} (h : Rests t s.stream) :
    Rests t s.phpFlushReadFileStream.2.stream := by
  rw [phpFlushReadFileStream]
  refine andThen_rests ?_ fun _ _ _ hrests => hrests.cursors 0 0
  split
  · exact phpSeekFileStream_rests h _ _
  · exact h

theorem readFromBuffer_rests {t : PhFileStream} (h : Rests t s.stream) (readLength length : Nat) :
    Rests t (s.readFromBuffer readLength length).2.stream := by
  rw [readFromBuffer]
  split
  · refine andThen_rests ?_ fun _ _ _ hrests => hrests.cursors 0 0
    have hused : Rests t (s.on fun t => { t with
        readPosition := t.readPosition + min readLength length }).stream := h.cursors _ _
    exact phpReadFileStream_rests hused _
  · exact h.cursors _ _

theorem readFromFile_rests {t : PhFileStream} (h : Rests t s.stream) (length : Nat) :
    Rests t (s.readFromFile length).2.stream := by
  rw [readFromFile]
  split
  · exact phpReadFileStream_rests (h.cursors 0 0) length
  have hallocate : Rests t (s.on phpAllocateBufferFileStream).stream :=
    ⟨h.written, allocated_allocate h.allocated, h.content⟩
  refine andThen_rests (phpReadFileStream_rests hallocate _) fun data s' hread hrests => ?_
  split
  · exact hrests
  · refine readFromBuffer_rests ?_ _ _
    -- what was read is not longer than the buffer
    have hfits : 0 + data.length ≤ s'.stream.bufferLength := by
      rcases (s.on phpAllocateBufferFileStream).read_cases s.stream.bufferLength with
        ⟨status, outcomes, hr⟩ | ⟨data', position, position', outcomes, hdata, hr⟩
      · rw [hr] at hread
        cases (Prod.mk.inj hread).1
      · obtain ⟨hok, hs'⟩ := Prod.mk.inj (hr.symm.trans hread)
        cases hok
        rw [← hs', Nat.zero_add]
        exact hdata
    exact ⟨hrests.written, allocated_copyToBuffer hrests.allocated hfits, hrests.content⟩

theorem phpFlushReadFileStream_ok {s' : FaultyStream}
    (h : s.phpFlushReadFileStream = (.ok (), s')) :
    s'.stream.readPosition = 0 ∧ s'.stream.readLength = 0 ∧
      s'.stream.unbuffered = s.stream.unbuffered := by
  rw [phpFlushReadFileStream] at h
  split at h
  · obtain ⟨result, position, position', outcomes, failed, hr, -⟩ := s.seek_cases
      (negLong (ulongSub s.stream.readLength s.stream.readPosition)) .seekCurrent
    rw [hr] at h
    cases result with
    | error status => cases (Prod.mk.inj h).1
    | ok _ =>
        obtain ⟨-, rfl⟩ := Prod.mk.inj h
        exact ⟨rfl, rfl, rfl⟩
  · obtain ⟨-, rfl⟩ := Prod.mk.inj h
    exact ⟨rfl, rfl, rfl⟩

theorem writeToEmpty_collects (hbuffered : s.stream.unbuffered = false)
    (hread : s.stream.readPosition = 0 ∧ s.stream.readLength = 0) (h : s.stream.Allocated)
    (hwrite : s.stream.writePosition = 0) (data : List UInt8) :
    Collects (s.writeToEmpty data).2.stream ∧
      ∀ status, (s.writeToEmpty data).1 = .error status →
        Rests s.stream (s.writeToEmpty data).2.stream := by
  rw [writeToEmpty]
  split
  · rcases s.write_cases data with ⟨status, outcomes, hr⟩ | ⟨position, position', outcomes, hr⟩
    · rw [hr]
      exact ⟨(Rests.refl h hwrite).collects, fun _ _ => .refl h hwrite⟩
    · rw [hr]
      exact ⟨⟨h, fun hno => absurd hwrite hno⟩, fun _ hno => by cases hno⟩
  · next hfits =>
      split
      · refine ⟨⟨?_, fun _ => ⟨hbuffered, hread.1, hread.2, (Nat.not_le.mp hfits).le, rfl⟩⟩,
          fun _ hno => by cases hno⟩
        refine allocated_copyToBuffer (allocated_allocate h) ?_
        rw [Nat.zero_add]
        exact (Nat.not_le.mp hfits).le
      · exact ⟨(Rests.refl h hwrite).collects, fun _ hno => by cases hno⟩

end FaultyStream

namespace PhFileStream

variable {s t u : PhFileStream} {merged merged' : List UInt8}

theorem Keeps.byteOffset (h : Keeps s t merged) : t.byteOffset = s.byteOffset := by
  rw [PhFileStream.byteOffset, h.ownPosition, h.position, h.fileHandle]
  rfl

theorem Keeps.refl (s : PhFileStream) : Keeps s s [] :=
  ⟨rfl, rfl, rfl, rfl, (List.append_nil _).symm⟩

theorem Keeps.trans (h : Keeps s t merged) (h' : Keeps t u merged') :
    Keeps s u (merged ++ merged') where
  position := h'.position.trans h.position
  fileHandle := h'.fileHandle.trans h.fileHandle
  ownPosition := h'.ownPosition.trans h.ownPosition
  writePosition := by rw [h'.writePosition, h.writePosition, List.length_append, Nat.add_assoc]
  unwritten := by rw [h'.unwritten, h.unwritten, List.append_assoc]

theorem Keeps.wrote (h : Keeps s t merged) (h' : Wrote t u merged') :
    Wrote s u (merged ++ merged') where
  writePosition := h'.writePosition
  content := by rw [h'.content, h.byteOffset, h.fileHandle, h.unwritten, List.append_assoc]

/-- What was to be written in `s` is still to be written, or was written. -/
def Accounted (s t : PhFileStream) (merged : List UInt8) : Prop :=
  Keeps s t merged ∨ Wrote s t merged

theorem Keeps.accounted (h : Keeps s t merged) (h' : Accounted t u merged') :
    Accounted s u (merged ++ merged') := h'.imp h.trans h.wrote

end PhFileStream

namespace FaultyStream

open PhFileStream

variable {s : FaultyStream} {α β : Type}

/-! ## What a call leaves when there is something to write -/

/-- A flush that succeeds empties the buffer. -/
structure Flushed (s t : PhFileStream) : Prop where
  wrote : Wrote s t []
  allocated : t.Allocated
  unbuffered : t.unbuffered = s.unbuffered
  cursors : t.readPosition = s.readPosition ∧ t.readLength = s.readLength

theorem flush_cases (h : s.stream.Allocated) :
    (∃ status outcomes, s.phpFlushWriteFileStream = (.error status, ⟨s.stream, outcomes, true⟩)) ∨
      ∃ t outcomes, s.phpFlushWriteFileStream = (.ok (), ⟨t, outcomes, s.failed⟩) ∧
        Flushed s.stream t := by
  rw [phpFlushWriteFileStream]
  rcases s.write_cases (s.stream.fromBuffer 0 s.stream.writePosition) with
    ⟨status, outcomes, hr⟩ | ⟨position, position', outcomes, hr⟩
  · rw [hr]
    exact .inl ⟨_, _, rfl⟩
  · rw [hr]
    refine .inr ⟨_, _, rfl, ⟨rfl, ?_⟩, h, rfl, rfl, rfl⟩
    rw [List.append_nil]
    rfl

/-- A call leaves a stream that collects, and accounts for what was to be written if it fails. -/
def Leaves (s : PhFileStream) (r : Except NtStatus α × FaultyStream) (data : List UInt8) : Prop :=
  Collects r.2.stream ∧ ∀ status, r.1 = .error status →
    ∃ merged, merged <+: data ∧ PhFileStream.Accounted s r.2.stream merged

theorem leaves_flush (h : Collects s.stream)
    {next : Unit → FaultyStream → Except NtStatus α × FaultyStream}
    (hnext : ∀ s', Flushed s.stream s'.stream → Collects (next () s').2.stream ∧
      ∀ status, (next () s').1 = .error status → Rests s'.stream (next () s').2.stream) :
    Leaves s.stream (andThen s.phpFlushWriteFileStream next) [] := by
  rcases flush_cases h.allocated with ⟨status, outcomes, hr⟩ | ⟨t, outcomes, hr, hflushed⟩
  · rw [hr]
    exact ⟨h, fun _ _ => ⟨[], List.nil_prefix, .inl (.refl _)⟩⟩
  · rw [hr]
    obtain ⟨hcollects, hfails⟩ := hnext ⟨t, outcomes, s.failed⟩ hflushed
    exact ⟨hcollects, fun status hstatus =>
      ⟨[], List.nil_prefix, .inr (hflushed.wrote.of_rests (hfails status hstatus))⟩⟩

theorem Flushed.rests {t : PhFileStream} (h : Flushed s.stream t) : Rests t t :=
  .refl h.allocated h.wrote.writePosition

theorem collects_of_rests {t : FaultyStream} {r : Except NtStatus α × FaultyStream}
    (hrests : Rests t.stream r.2.stream) :
    Collects r.2.stream ∧ ∀ status, r.1 = .error status → Rests t.stream r.2.stream :=
  ⟨hrests.collects, fun _ _ => hrests⟩

theorem writeToBuffer_leaves (h : Collects s.stream) (hwrite : s.stream.writePosition ≠ 0)
    (data : List UInt8) : Leaves s.stream (s.writeToBuffer data) data := by
  obtain ⟨hbuffered, hposition, hlength, hle, hsome⟩ := h.collects hwrite
  rw [writeToBuffer, ulongSub_of_le hle]
  -- the buffer, with what has room in it
  have hfits : s.stream.writePosition +
      (data.take (min (s.stream.bufferLength - s.stream.writePosition) data.length)).length ≤
        s.stream.bufferLength := by
    rw [List.length_take]
    omega
  have htaken : (data.take (min (s.stream.bufferLength - s.stream.writePosition)
      data.length)).length = min (s.stream.bufferLength - s.stream.writePosition) data.length := by
    rw [List.length_take]
    omega
  generalize hs₁ : (s.on fun t => { t.copyToBuffer t.writePosition
      (data.take (min (s.stream.bufferLength - s.stream.writePosition) data.length)) with
    writePosition := t.writePosition +
      min (s.stream.bufferLength - s.stream.writePosition) data.length }) = s₁
  have hkeeps : PhFileStream.Keeps s.stream s₁.stream
      (data.take (min (s.stream.bufferLength - s.stream.writePosition) data.length)) := by
    rw [← hs₁]
    refine ⟨rfl, rfl, rfl, ?_, ?_⟩
    · rw [htaken]
      rfl
    · have hcopied := fromBuffer_copyToBuffer h.allocated hsome hfits
      rw [htaken] at hcopied
      exact hcopied
  have hcollects : Collects s₁.stream := by
    rw [← hs₁]
    refine ⟨allocated_copyToBuffer h.allocated hfits, fun _ => ⟨hbuffered, hposition, hlength, ?_, ?_⟩⟩
    · rw [htaken] at hfits
      exact hfits
    · obtain ⟨buffer, hbuffer⟩ := Option.isSome_iff_exists.mp hsome
      show (s.stream.buffer.map _).isSome = true
      rw [hbuffer]
      rfl
  have hcursors : s₁.stream.unbuffered = false ∧ s₁.stream.readPosition = 0 ∧
      s₁.stream.readLength = 0 := by
    rw [← hs₁]
    exact ⟨hbuffered, hposition, hlength⟩
  split
  · exact ⟨hcollects, fun _ hno => by cases hno⟩
  · have hleaves : Leaves s₁.stream (andThen s₁.phpFlushWriteFileStream fun _ s' =>
        s'.writeToEmpty (data.drop
          (min (s.stream.bufferLength - s.stream.writePosition) data.length))) [] :=
      leaves_flush hcollects fun s' hflushed =>
        writeToEmpty_collects (hflushed.unbuffered.trans hcursors.1)
          ⟨hflushed.cursors.1.trans hcursors.2.1, hflushed.cursors.2.trans hcursors.2.2⟩
          hflushed.allocated hflushed.wrote.writePosition _
    refine ⟨hleaves.1, fun status hstatus => ?_⟩
    obtain ⟨merged, hnil, haccounted⟩ := hleaves.2 status hstatus
    obtain rfl := List.prefix_nil.mp hnil
    exact ⟨_, List.append_nil _ ▸ List.take_prefix _ _, hkeeps.accounted haccounted⟩

theorem call_leaves (h : Collects s.stream) (hwrite : s.stream.writePosition ≠ 0)
    (c : FileStreamCall) : Leaves s.stream (s.call c) c.data := by
  obtain ⟨hbuffered, hposition, hlength, -, -⟩ := h.collects hwrite
  cases c with
  | read length =>
      have hread : Leaves s.stream (s.phReadFileStream length) [] := by
        rw [phReadFileStream, hbuffered, if_neg Bool.false_ne_true, hposition, hlength,
          if_pos (show ulongSub 0 0 = 0 from rfl), if_pos hwrite]
        exact leaves_flush h fun s' hflushed =>
          collects_of_rests (readFromFile_rests hflushed.rests length)
      rw [call]
      cases hr : s.phReadFileStream length with
      | mk result s' =>
          rw [hr] at hread
          cases result with
          | error status =>
              refine ⟨hread.1, fun status' hstatus => hread.2 status' ?_⟩
              cases hstatus
              rfl
          | ok data => exact ⟨hread.1, fun _ hno => by cases hno⟩
  | write data =>
      rw [call, phWriteFileStream, hbuffered, if_neg Bool.false_ne_true, if_neg hwrite]
      show Leaves s.stream (if s.stream.writePosition ≠ 0 then _ else _) data
      rw [if_pos hwrite]
      exact writeToBuffer_leaves h hwrite data
  | seek offset origin =>
      rw [call, phSeekFileStream, if_pos hwrite]
      exact leaves_flush h fun s' hflushed =>
        collects_of_rests (phpSeekFileStream_rests hflushed.rests offset origin)
  | flush =>
      rw [call, phFlushFileStream, if_pos hwrite]
      refine leaves_flush h fun s' hflushed => collects_of_rests ?_
      split
      · exact phpFlushReadFileStream_rests hflushed.rests
      · exact hflushed.rests
  | getPosition => exact ⟨h, fun _ hno => by cases hno⟩

/-! ## Every stream collects -/

theorem call_collects (h : Collects s.stream) (c : FileStreamCall) :
    Collects (s.call c).2.stream := by
  by_cases hwrite : s.stream.writePosition ≠ 0
  · exact (call_leaves h hwrite c).1
  have hzero := not_not.mp hwrite
  have hrests := Rests.refl h.allocated hzero
  cases c with
  | read length =>
      have hread : Rests s.stream (s.phReadFileStream length).2.stream := by
        rw [phReadFileStream]
        split
        · exact phpReadFileStream_rests hrests length
        · split
          · exact readFromFile_rests hrests length
          · exact readFromBuffer_rests hrests _ length
      exact (andThen_rests hread fun _ _ _ hrests => hrests).collects
  | write data =>
      rw [call, phWriteFileStream]
      split
      · rcases s.write_cases data with ⟨status, outcomes, hr⟩ | ⟨position, position', outcomes, hr⟩
        · rw [hr]
          exact h
        · rw [hr]
          exact ⟨h.allocated, fun hno => absurd hzero hno⟩
      · next hbuffered =>
          have hflush := phpFlushReadFileStream_rests hrests
          cases hr : s.phpFlushReadFileStream with
          | mk result s' =>
              rw [hr] at hflush
              cases result with
              | error status => exact hflush.collects
              | ok _ =>
                  obtain ⟨hposition, hlength, hsame⟩ := phpFlushReadFileStream_ok hr
                  show Collects (if s'.stream.writePosition ≠ 0 then s'.writeToBuffer data
                    else s'.writeToEmpty data).2.stream
                  rw [if_neg fun hne => hne hflush.written]
                  exact (writeToEmpty_collects (hsame.trans (Bool.eq_false_iff.mpr hbuffered))
                    ⟨hposition, hlength⟩ hflush.allocated hflush.written data).1
  | seek offset origin =>
      rw [call, phSeekFileStream, if_neg hwrite]
      split
      · have hcursors : Rests s.stream (s.on fun t => { t with
            readPosition := 0, readLength := 0 }).stream := hrests.cursors 0 0
        exact (phpSeekFileStream_rests hcursors _ origin).collects
      · exact (phpSeekFileStream_rests hrests offset origin).collects
  | flush =>
      rw [call, phFlushFileStream, if_neg hwrite]
      show Collects (if s.stream.readPosition ≠ 0 then s.phpFlushReadFileStream
        else (.ok (), s)).2.stream
      split
      · exact (phpFlushReadFileStream_rests hrests).collects
      · exact h
  | getPosition => exact h

end FaultyStream

theorem PhFileStream.Reachable.collects {s : PhFileStream} (h : s.Reachable) : s.Collects := by
  induction h with
  | create fileHandle unbuffered ownPosition bufferLength =>
      exact ⟨fun _ hno => (by cases hno), fun hno => absurd rfl hno⟩
  | call c outcomes _ ih => exact FaultyStream.call_collects ih c

/-! ## A call in which the system fails -/

namespace FaultyStream

variable {s : FaultyStream} {α β : Type}

/-- A call that succeeds is one in which nothing has failed. -/
def Reports (s : FaultyStream) (r : Except NtStatus α × FaultyStream) : Prop :=
  r.1.isOk = true → r.2.failed = s.failed

theorem reports_andThen {r : Except NtStatus α × FaultyStream}
    {next : α → FaultyStream → Except NtStatus β × FaultyStream} (hr : Reports s r)
    (hnext : ∀ a s', Reports s' (next a s')) : Reports s (andThen r next) := by
  rw [andThen.eq_def]
  split
  · exact fun hok => by cases hok
  · next a s' => exact fun hok => (hnext a s' hok).trans (hr rfl)

theorem reports_ok (a : α) (f : PhFileStream → PhFileStream) :
    Reports s ((.ok a, s.on f) : Except NtStatus α × FaultyStream) := fun _ => rfl

theorem reports_system (refused : PhFileStream) (performed : Except NtStatus α × PhFileStream) :
    Reports s (s.system refused performed) := by
  rcases system_cases s refused performed with ⟨status, outcomes, hr⟩ | ⟨outcomes, hr⟩
  · rw [hr]
    exact fun hok => by cases hok
  · rw [hr]
    exact fun hok => by simp [show performed.1.isOk = true from hok]

theorem phpSeekFileStream_reports (offset : LargeInteger) (origin : PhSeekOrigin) :
    Reports s (s.phpSeekFileStream offset origin) := by
  rw [phpSeekFileStream]
  split
  · exact reports_ok () _
  · exact reports_system _ _

theorem phpFlushReadFileStream_reports : Reports s s.phpFlushReadFileStream := by
  rw [phpFlushReadFileStream]
  refine reports_andThen ?_ fun _ _ => reports_ok () _
  split
  · exact phpSeekFileStream_reports _ _
  · exact fun _ => rfl

theorem phpFlushWriteFileStream_reports : Reports s s.phpFlushWriteFileStream :=
  reports_andThen (reports_system _ _) fun _ _ => reports_ok () _

theorem readFromBuffer_reports (readLength length : Nat) :
    Reports s (s.readFromBuffer readLength length) := by
  rw [readFromBuffer]
  split
  · exact reports_andThen (reports_system _ _) fun _ _ => reports_ok _ _
  · exact reports_ok _ _

theorem readFromFile_reports (length : Nat) : Reports s (s.readFromFile length) := by
  rw [readFromFile]
  split
  · exact reports_system _ _
  · refine reports_andThen (reports_system _ _) fun data s' => ?_
    split
    · exact fun _ => rfl
    · exact readFromBuffer_reports _ _

theorem writeToEmpty_reports (data : List UInt8) : Reports s (s.writeToEmpty data) := by
  rw [writeToEmpty]
  split
  · exact reports_system _ _
  · split
    · exact reports_ok () _
    · exact fun _ => rfl

theorem writeToBuffer_reports (data : List UInt8) : Reports s (s.writeToBuffer data) := by
  rw [writeToBuffer]
  split
  · exact reports_ok () _
  · exact reports_andThen phpFlushWriteFileStream_reports fun _ _ => writeToEmpty_reports _

theorem reports_if {p : Prop} [Decidable p] {r r' : Except NtStatus α × FaultyStream}
    (h : Reports s r) (h' : Reports s r') : Reports s (if p then r else r') := by
  split
  · exact h
  · exact h'

theorem call_reports (c : FileStreamCall) : Reports s (s.call c) := by
  cases c with
  | read length =>
      refine reports_andThen ?_ fun _ _ _ => rfl
      refine reports_if (reports_system _ _) (reports_if ?_ (readFromBuffer_reports _ _))
      exact reports_andThen (reports_if phpFlushWriteFileStream_reports fun _ => rfl)
        fun _ _ => readFromFile_reports length
  | write data =>
      refine reports_if (reports_system _ _) ?_
      exact reports_andThen (reports_if phpFlushReadFileStream_reports fun _ => rfl)
        fun _ _ => reports_if (writeToBuffer_reports data) (writeToEmpty_reports data)
  | seek offset origin =>
      refine reports_if ?_ (reports_if ?_ (phpSeekFileStream_reports _ _))
      · exact reports_andThen phpFlushWriteFileStream_reports
          fun _ _ => phpSeekFileStream_reports _ _
      · exact phpSeekFileStream_reports _ _
  | flush =>
      exact reports_andThen (reports_if phpFlushWriteFileStream_reports fun _ => rfl)
        fun _ _ => reports_if phpFlushReadFileStream_reports fun _ => rfl
  | getPosition => exact fun _ => rfl

end FaultyStream

/-! ## A flush that succeeds later -/

namespace FaultyStream

open PhFileStream

variable {s s' : FaultyStream} {t : PhFileStream} {merged : List UInt8}

theorem phFlushFileStream_ok (h : Collects s.stream) (hflush : s.phFlushFileStream = (.ok (), s')) :
    s.stream.writePosition ≠ 0 ∧ Wrote s.stream s'.stream [] ∨
      s.stream.writePosition = 0 ∧ Rests s.stream s'.stream := by
  have hread : ∀ s₁ : FaultyStream, Rests s₁.stream s₁.stream → Rests s₁.stream
      (if s₁.stream.readPosition ≠ 0 then s₁.phpFlushReadFileStream
        else (.ok (), s₁)).2.stream := by
    intro s₁ hrests
    split
    · exact phpFlushReadFileStream_rests hrests
    · exact hrests
  rw [phFlushFileStream] at hflush
  by_cases hwrite : s.stream.writePosition ≠ 0
  · rw [if_pos hwrite] at hflush
    rcases flush_cases h.allocated with ⟨status, outcomes, hr⟩ | ⟨t, outcomes, hr, hflushed⟩
    · rw [hr] at hflush
      cases (Prod.mk.inj hflush).1
    · rw [hr] at hflush
      have hrests := hread ⟨t, outcomes, s.failed⟩ hflushed.rests
      rw [show (if t.readPosition ≠ 0 then _ else _) = _ from hflush] at hrests
      exact .inl ⟨hwrite, hflushed.wrote.of_rests hrests⟩
  · rw [if_neg hwrite] at hflush
    have hrests := hread s (.refl h.allocated (not_not.mp hwrite))
    rw [show (if s.stream.readPosition ≠ 0 then _ else _) = _ from hflush] at hrests
    exact .inr ⟨not_not.mp hwrite, hrests⟩

theorem content_of_accounted (h : Collects s.stream) (hwrite : t.writePosition ≠ 0)
    (haccounted : PhFileStream.Accounted t s.stream merged)
    (hflush : s.phFlushFileStream = (.ok (), s')) :
    s'.stream.fileHandle.content =
      Overlay.overlay 0 t.fileHandle.content t.byteOffset.toNat (t.unwritten ++ merged) := by
  rcases haccounted with hkeeps | hwrote
  · have hne : s.stream.writePosition ≠ 0 := by
      rw [hkeeps.writePosition]
      omega
    rcases phFlushFileStream_ok h hflush with ⟨-, hwrote⟩ | ⟨hzero, -⟩
    · have hcontent := (hkeeps.wrote hwrote).content
      rwa [List.append_nil] at hcontent
    · exact absurd hzero hne
  · rcases phFlushFileStream_ok h hflush with ⟨hne, -⟩ | ⟨-, hrests⟩
    · exact absurd hwrote.writePosition hne
    · exact hrests.content.trans hwrote.content

end FaultyStream

/-- A call in which the system fails is reported, and what was to be written is in the buffer as
before, or was written once, with a part of what the call would write behind it; so it is in the
file, where it belongs, after a flush that succeeds. -/
theorem phFileStream_failureKeeps {s : PhFileStream} (hs : s.Reachable)
    (hwrite : s.writePosition ≠ 0) (c : FileStreamCall) (outcomes : List (Option NtStatus))
    (hfailed : ((FaultyStream.mk s outcomes false).call c).2.failed = true) :
    let r := (FaultyStream.mk s outcomes false).call c
    (∃ status, r.1 = .error status) ∧ ∃ merged, merged <+: c.data ∧
      s.Accounted r.2.stream merged ∧
      ∀ later, r.2.phFlushFileStream = (.ok (), later) → later.stream.fileHandle.content =
        Overlay.overlay 0 s.fileHandle.content s.byteOffset.toNat (s.unwritten ++ merged) := by
  intro r
  have herror : ∃ status, r.1 = .error status := by
    cases hr : r.1 with
    | error status => exact ⟨status, rfl⟩
    | ok _ =>
        have hsame : r.2.failed = false :=
          FaultyStream.call_reports (s := FaultyStream.mk s outcomes false) c
            (by rw [show ((FaultyStream.mk s outcomes false).call c).1 = .ok () from hr]; rfl)
        rw [show r.2.failed = true from hfailed] at hsame
        cases hsame
  obtain ⟨status, hstatus⟩ := herror
  have hleaves := FaultyStream.call_leaves (s := FaultyStream.mk s outcomes false) hs.collects
    hwrite c
  obtain ⟨merged, hmerged, haccounted⟩ := hleaves.2 status hstatus
  exact ⟨⟨status, hstatus⟩, merged, hmerged, haccounted, fun later hflush =>
    FaultyStream.content_of_accounted hleaves.1 hwrite haccounted hflush⟩

/-- A new stream with room for four bytes, in which two were written. -/
def twoWritten : PhFileStream :=
  ((FaultyStream.mk (.phCreateFileStream2 ⟨[], 0⟩ false true 4) [] false).call
    (.write [1, 2])).2.stream

theorem twoWritten_reachable : twoWritten.Reachable := .call _ _ (.create _ _ _ _)

/-- The flush fails in which three more bytes need room. -/
theorem phFileStream_failureKeeps_full :
    ∃ merged, merged <+: [3, 4, 5] ∧ twoWritten.Accounted
      ((FaultyStream.mk twoWritten [some statusUnexpectedIoError] false).call
        (.write [3, 4, 5])).2.stream merged := by
  obtain ⟨-, merged, hmerged, haccounted, -⟩ := phFileStream_failureKeeps twoWritten_reachable
    (by decide) (.write [3, 4, 5]) [some statusUnexpectedIoError] (by decide)
  exact ⟨merged, hmerged, haccounted⟩

/-- The flush succeeds, and what would be passed through fails: nothing is buffered any more. -/
theorem phFileStream_failureFlushes : ∃ (s : PhFileStream) (c : FileStreamCall)
    (outcomes : List (Option NtStatus)), s.Reachable ∧ s.writePosition ≠ 0 ∧
      ((FaultyStream.mk s outcomes false).call c).2.failed = true ∧
      ((FaultyStream.mk s outcomes false).call c).2.stream.writePosition = 0 :=
  ⟨twoWritten, .write [3, 4, 5, 6, 7, 8, 9, 10], [none, some statusUnexpectedIoError],
    twoWritten_reachable, by decide, by decide, by decide⟩

/-! ## Streams in which nothing fails -/

namespace PhFileStream

/-- What a function gives when no call of the system is made to fail. -/
def calm (r : Except NtStatus α × PhFileStream) : Except NtStatus α × FaultyStream :=
  (r.1, ⟨r.2, [], !r.1.isOk⟩)

theorem andThen_calm {r : Except NtStatus α × PhFileStream}
    {next : α → FaultyStream → Except NtStatus β × FaultyStream} {x : Except NtStatus β × PhFileStream}
    (herror : ∀ status t, r = (.error status, t) → (.error status, t) = x)
    (hok : ∀ a t, r = (.ok a, t) → next a ⟨t, [], false⟩ = calm x) :
    FaultyStream.andThen (calm r) next = calm x := by
  rcases r with ⟨_ | a, t⟩
  · exact congrArg calm (herror _ _ rfl)
  · exact hok a t rfl

theorem phpSeekFileStream_calm (s : PhFileStream) (offset : LargeInteger) (origin : PhSeekOrigin) :
    (FaultyStream.mk s [] false).phpSeekFileStream offset origin =
      calm (s.phpSeekFileStream offset origin) := by
  rw [FaultyStream.phpSeekFileStream]
  split
  · next hown =>
      rw [phpSeekFileStream, if_pos hown]
      rfl
  · rfl

theorem phpFlushReadFileStream_calm (s : PhFileStream) :
    (FaultyStream.mk s [] false).phpFlushReadFileStream = calm s.phpFlushReadFileStream := by
  rw [FaultyStream.phpFlushReadFileStream, phpFlushReadFileStream]
  have hsought : (if ulongSub s.readLength s.readPosition ≠ 0 then
      (FaultyStream.mk s [] false).phpSeekFileStream
        (negLong (ulongSub s.readLength s.readPosition)) .seekCurrent
      else (.ok (), ⟨s, [], false⟩)) =
      calm (if ulongSub s.readLength s.readPosition ≠ 0 then
        s.phpSeekFileStream (negLong (ulongSub s.readLength s.readPosition)) .seekCurrent
        else (.ok (), s)) := by
    split
    · exact phpSeekFileStream_calm ..
    · rfl
  refine (congrArg (FaultyStream.andThen · _) hsought).trans
    (andThen_calm (fun _ _ hr => ?_) fun _ _ hr => ?_)
  · rw [hr]
  · rw [hr]
    rfl

theorem phpFlushWriteFileStream_calm (s : PhFileStream) :
    (FaultyStream.mk s [] false).phpFlushWriteFileStream = calm s.phpFlushWriteFileStream := by
  rw [phpFlushWriteFileStream]
  show FaultyStream.andThen (calm (s.phpWriteFileStream (s.fromBuffer 0 s.writePosition))) _ = _
  refine andThen_calm (fun _ _ hr => ?_) fun _ _ hr => ?_
  · rw [hr]
  · rw [hr]
    rfl

theorem readFromBuffer_calm (s : PhFileStream) (readLength length : Nat) :
    (FaultyStream.mk s [] false).readFromBuffer readLength length =
      calm (s.readFromBuffer readLength length) := by
  rw [FaultyStream.readFromBuffer, readFromBuffer]
  show (if min readLength length < length ∧ s.readLength = s.bufferLength then _ else _) = calm
    (if min readLength length < length ∧ s.readLength = s.bufferLength then _ else _)
  split
  · show FaultyStream.andThen (calm (phpReadFileStream
      { s with readPosition := s.readPosition + min readLength length }
      (length - min readLength length))) _ = _
    refine andThen_calm (fun _ _ hr => ?_) fun _ _ hr => ?_
    · rw [hr]
    · rw [hr]
      rfl
  · rfl

theorem readFromFile_calm (s : PhFileStream) (length : Nat) :
    (FaultyStream.mk s [] false).readFromFile length = calm (s.readFromFile length) := by
  rw [FaultyStream.readFromFile, readFromFile]
  show (if s.bufferLength ≤ length then _ else _) = calm _
  split
  · rfl
  · show FaultyStream.andThen
      (calm (s.phpAllocateBufferFileStream.phpReadFileStream s.bufferLength)) _ = _
    refine andThen_calm (fun _ _ hr => ?_) fun data t hr => ?_
    · rw [hr]
    · rw [hr]
      dsimp only
      split
      · rfl
      · exact readFromBuffer_calm ..

theorem phReadFileStream_calm (s : PhFileStream) (length : Nat) :
    (FaultyStream.mk s [] false).phReadFileStream length = calm (s.phReadFileStream length) := by
  rw [FaultyStream.phReadFileStream, phReadFileStream]
  show (if s.unbuffered then _ else if ulongSub s.readLength s.readPosition = 0 then _ else _) =
    calm _
  split
  · rfl
  · split
    · have hflushed : (if s.writePosition ≠ 0 then (FaultyStream.mk s [] false).phpFlushWriteFileStream
          else (.ok (), ⟨s, [], false⟩)) =
          calm (if s.writePosition ≠ 0 then s.phpFlushWriteFileStream else (.ok (), s)) := by
        split
        · exact phpFlushWriteFileStream_calm s
        · rfl
      refine (congrArg (FaultyStream.andThen · _) hflushed).trans
        (andThen_calm (fun _ _ hr => ?_) fun _ t hr => ?_)
      · rw [hr]
      · rw [hr]
        exact readFromFile_calm t length
    · exact readFromBuffer_calm ..

theorem writeToEmpty_calm (s : PhFileStream) (data : List UInt8) :
    (FaultyStream.mk s [] false).writeToEmpty data = calm (s.writeToEmpty data) := by
  rw [FaultyStream.writeToEmpty, writeToEmpty]
  show (if s.bufferLength ≤ data.length then _ else _) = calm _
  split
  · rfl
  · split
    · rfl
    · rfl

theorem phWriteFileStream_calm (s : PhFileStream) (data : List UInt8) :
    (FaultyStream.mk s [] false).phWriteFileStream data = calm (s.phWriteFileStream data) := by
  rw [FaultyStream.phWriteFileStream, phWriteFileStream]
  show (if s.unbuffered then _ else _) = calm _
  split
  · rfl
  · have hflushed : (if s.writePosition = 0 then (FaultyStream.mk s [] false).phpFlushReadFileStream
        else (.ok (), ⟨s, [], false⟩)) =
        calm (if s.writePosition = 0 then s.phpFlushReadFileStream else (.ok (), s)) := by
      split
      · exact phpFlushReadFileStream_calm s
      · rfl
    refine (congrArg (FaultyStream.andThen · _) hflushed).trans
      (andThen_calm (fun _ _ hr => ?_) fun _ t hr => ?_)
    · rw [hr]
    rw [hr]
    show (if t.writePosition ≠ 0 then _ else _) = calm (if t.writePosition ≠ 0 then _ else _)
    split
    · rw [FaultyStream.writeToBuffer]
      show (if ulongSub t.bufferLength t.writePosition ≠ 0 ∧ _ then _ else _) = calm
        (if ulongSub t.bufferLength t.writePosition ≠ 0 ∧ _ then _ else _)
      split
      · rfl
      · refine (congrArg (FaultyStream.andThen · _) (phpFlushWriteFileStream_calm _)).trans
          (andThen_calm (fun _ _ hr => ?_) fun _ t' hr => ?_)
        · rw [hr]
        · rw [hr]
          exact writeToEmpty_calm t' _
    · exact writeToEmpty_calm t data

theorem phFlushFileStream_calm (s : PhFileStream) :
    (FaultyStream.mk s [] false).phFlushFileStream = calm s.phFlushFileStream := by
  have hflushed : (if s.writePosition ≠ 0 then (FaultyStream.mk s [] false).phpFlushWriteFileStream
      else (.ok (), ⟨s, [], false⟩)) =
      calm (if s.writePosition ≠ 0 then s.phpFlushWriteFileStream else (.ok (), s)) := by
    split
    · exact phpFlushWriteFileStream_calm s
    · rfl
  rw [phFlushFileStream]
  refine (congrArg (FaultyStream.andThen · _) hflushed).trans
    (andThen_calm (fun _ _ hr => ?_) fun _ t hr => ?_)
  · rw [hr]
  rw [hr]
  show (if t.readPosition ≠ 0 then _ else _) = calm (if t.readPosition ≠ 0 then _ else _)
  split
  · exact phpFlushReadFileStream_calm t
  · rfl

theorem phSeekFileStream_calm (s : PhFileStream) (offset : LargeInteger) (origin : PhSeekOrigin) :
    (FaultyStream.mk s [] false).phSeekFileStream offset origin =
      calm (s.phSeekFileStream offset origin) := by
  rw [FaultyStream.phSeekFileStream, phSeekFileStream]
  show (if s.writePosition ≠ 0 then _ else if s.readPosition ≠ 0 then _ else _) = calm _
  split
  · refine (congrArg (FaultyStream.andThen · _) (phpFlushWriteFileStream_calm s)).trans
      (andThen_calm (fun _ _ hr => ?_) fun _ t hr => ?_)
    · rw [hr]
    · rw [hr]
      exact phpSeekFileStream_calm t offset origin
  · split
    · exact phpSeekFileStream_calm ..
    · exact phpSeekFileStream_calm ..

theorem call_calm (s : PhFileStream) (c : FileStreamCall) :
    ((FaultyStream.mk s [] false).call c).2.stream = (s.call c).2 := by
  cases c with
  | read length =>
      rw [FaultyStream.call, phReadFileStream_calm, call]
      rcases s.phReadFileStream length with ⟨_ | _, t⟩
      · rfl
      · rfl
  | write data => rw [FaultyStream.call, phWriteFileStream_calm]; rfl
  | seek offset origin => rw [FaultyStream.call, phSeekFileStream_calm]; rfl
  | flush => rw [FaultyStream.call, phFlushFileStream_calm]; rfl
  | getPosition => rfl

end PhFileStream

end SystemInformer.PhLib
