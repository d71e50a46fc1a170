import SystemInformer.PhLib.FileStream

/-!
# A buffered stream answers as an unbuffered one

The buffered stream and the unbuffered one are run side by side. What the buffered stream has
collected lies over its file, and what it has read ahead is what stands in the file behind the
position of the other. A flush brings both files and both positions together.

Four places of the code do not keep this, and the calls that reach them are left out: the
position is computed with a difference that wraps around, a seek does not look at what was
read ahead when nothing of it was used, a read that ends where the file ends fails if the
buffer was full, and a difference beyond the range of a `LONG` changes its sign.
-/

namespace SystemInformer.PhLib

theorem ulongSub_of_le {left right : Nat} (h : right ≤ left) :
    ulongSub left right = left - right := if_pos h

theorem ulongSub_eq_zero {left right : Nat} (h : right ≤ left) :
    ulongSub left right = 0 ↔ left = right := by
  rw [ulongSub_of_le h]
  omega

theorem negLong_eq {value : Nat} (h : value ≤ 2 ^ 31) : negLong value = -BitVec.ofNat 64 value := by
  refine BitVec.eq_of_toInt_eq ?_
  rw [negLong, BitVec.toInt_signExtend, BitVec.toInt_neg, BitVec.toInt_neg, BitVec.toInt_ofNat',
    BitVec.toInt_ofNat']
  show ((-(value : Int).bmod (2 ^ 32)).bmod (2 ^ 32)).bmod (2 ^ 32) =
    (-(value : Int).bmod (2 ^ 64)).bmod (2 ^ 64)
  simp only [Int.bmod_def]
  omega

theorem msb_eq_false {x : LargeInteger} (h : x.toNat < 2 ^ 63) : x.msb = false :=
  BitVec.msb_eq_false_iff_two_mul_lt.mpr (by omega)

theorem toNat_add_ofNat {x : LargeInteger} {n : Nat} (h : x.toNat + n < 2 ^ 64) :
    (x + BitVec.ofNat 64 n).toNat = x.toNat + n := by
  rw [BitVec.toNat_add, BitVec.toNat_ofNat]
  omega

namespace PhFileStream

/-- The stream after its file was read, written or moved in. -/
def movedTo (s : PhFileStream) (content : List UInt8) (position : LargeInteger) : PhFileStream :=
  { s with fileHandle := ⟨content, position⟩, position := position }

def Aligned (s : PhFileStream) : Prop := s.byteOffset = s.position

variable {s : PhFileStream}

theorem aligned_movedTo (s : PhFileStream) (content : List UInt8) (position : LargeInteger) :
    (s.movedTo content position).Aligned := by
  show (if s.ownPosition then position else position) = position
  exact ite_self _

theorem phpReadFileStream_eq (h : s.Aligned) (hroom : s.position.toNat < 2 ^ 63) (length : Nat) :
    s.phpReadFileStream length =
      if s.fileHandle.content.length ≤ s.position.toNat then (.error statusEndOfFile, s)
      else
        (.ok ((s.fileHandle.content.drop s.position.toNat).take length),
          s.movedTo s.fileHandle.content (s.position + BitVec.ofNat 64
            ((s.fileHandle.content.drop s.position.toNat).take length).length)) := by
  rw [phpReadFileStream, h, ntReadFile, msb_eq_false hroom, if_neg Bool.false_ne_true]
  by_cases hend : s.fileHandle.content.length ≤ s.position.toNat
  · rw [if_pos hend, if_pos hend]
  · rw [if_neg hend, if_neg hend]
    rfl

theorem phpWriteFileStream_eq (h : s.Aligned) (hroom : s.position.toNat < 2 ^ 63)
    (data : List UInt8) : s.phpWriteFileStream data =
      (.ok (), s.movedTo (Overlay.overlay 0 s.fileHandle.content s.position.toNat data)
        (s.position + BitVec.ofNat 64 data.length)) := by
  rw [phpWriteFileStream, h, ntWriteFile, msb_eq_false hroom, if_neg Bool.false_ne_true]
  rfl

def soughtTo (s : PhFileStream) (position : LargeInteger) : PhFileStream :=
  { s with
    fileHandle :=
      if s.ownPosition then s.fileHandle else { s.fileHandle with currentByteOffset := position }
    position := position }

variable {origin : PhSeekOrigin}

theorem phpSeekFileStream_eq {offset : LargeInteger}
    (hroom : (s.seekPosition offset origin).toNat < 2 ^ 63) :
    s.phpSeekFileStream offset origin = (.ok (), s.soughtTo (s.seekPosition offset origin)) := by
  rw [phpSeekFileStream, soughtTo]
  by_cases hown : s.ownPosition = true
  · rw [if_pos hown, if_pos hown]
  · rw [if_neg hown, if_neg hown, ntSetInformationFile, msb_eq_false hroom,
      if_neg Bool.false_ne_true]

theorem content_soughtTo (s : PhFileStream) (position : LargeInteger) :
    (s.soughtTo position).fileHandle.content = s.fileHandle.content := by
  show (if s.ownPosition then _ else _ : NtFile).content = _
  split <;> rfl

theorem aligned_soughtTo (s : PhFileStream) (position : LargeInteger) :
    (s.soughtTo position).Aligned := by
  show (if s.ownPosition then position else
    (if s.ownPosition then _ else _ : NtFile).currentByteOffset) = position
  by_cases hown : s.ownPosition = true
  · rw [if_pos hown]
  · rw [if_neg hown, if_neg hown]

/-! ## The two streams -/

/-- What was read ahead and not used. -/
def unread (s : PhFileStream) : List UInt8 :=
  s.fromBuffer s.readPosition (s.readLength - s.readPosition)

def unwritten (s : PhFileStream) : List UInt8 := s.fromBuffer 0 s.writePosition

/-- What the file would be without a buffer. -/
def logicalContent (s : PhFileStream) : List UInt8 :=
  Overlay.overlay 0 s.fileHandle.content s.position.toNat s.unwritten

/-- Where the file would be without a buffer. -/
def logicalPosition (s : PhFileStream) : LargeInteger :=
  s.position - BitVec.ofNat 64 (s.readLength - s.readPosition) + BitVec.ofNat 64 s.writePosition

structure Buffers (s : PhFileStream) : Prop where
  buffered : s.unbuffered = false
  bufferLength_pos : 0 < s.bufferLength
  bufferLength_lt : s.bufferLength < 2 ^ 32
  aligned : s.Aligned
  used : s.readPosition ≤ s.readLength
  read : s.readLength ≤ s.bufferLength
  written : s.writePosition ≤ s.bufferLength
  exclusive : s.writePosition ≠ 0 → s.readLength = 0
  allocated : ∀ buffer, s.buffer = some buffer → buffer.length = s.bufferLength
  needed : s.readLength ≠ 0 ∨ s.writePosition ≠ 0 → s.buffer.isSome

structure Plain (s : PhFileStream) : Prop where
  unbuffered : s.unbuffered = true
  aligned : s.Aligned
  cursors : s.readPosition = 0 ∧ s.readLength = 0 ∧ s.writePosition = 0
  room : s.position.toNat < 2 ^ 63
  size : s.fileHandle.content.length < 2 ^ 63

/-- The buffered stream `b` stands for the unbuffered stream `u`. -/
structure Refines (b u : PhFileStream) : Prop where
  buffers : Buffers b
  plain : Plain u
  position : u.position.toNat + (b.readLength - b.readPosition) = b.position.toNat + b.writePosition
  content : u.fileHandle.content = b.logicalContent
  ahead : b.readPosition < b.readLength → b.position.toNat ≤ b.fileHandle.content.length ∧
    b.unread = (b.fileHandle.content.drop u.position.toNat).take (b.readLength - b.readPosition) ∧
    (b.readLength = b.bufferLength ∨ b.fileHandle.content.length ≤ b.position.toNat)

variable {b u : PhFileStream}

theorem Buffers.length_fromBuffer (h : Buffers s) {offset length : Nat}
    (hle : offset + length ≤ s.bufferLength) (hsome : length ≠ 0 → s.buffer.isSome) :
    (s.fromBuffer offset length).length = length := by
  by_cases hzero : length = 0
  · rw [hzero, fromBuffer, List.take_zero, List.length_nil]
  · obtain ⟨buffer, hbuffer⟩ := Option.isSome_iff_exists.mp (hsome hzero)
    rw [fromBuffer, hbuffer, Option.getD_some, List.length_take, List.length_drop,
      h.allocated buffer hbuffer]
    omega

theorem Buffers.length_unwritten (h : Buffers s) : s.unwritten.length = s.writePosition := by
  refine h.length_fromBuffer ?_ fun hne => h.needed (.inr hne)
  rw [Nat.zero_add]
  exact h.written

theorem Buffers.length_unread (h : Buffers s) :
    s.unread.length = s.readLength - s.readPosition := by
  have hused := h.used
  have hread := h.read
  exact h.length_fromBuffer (by omega) fun hne => h.needed (.inl (by omega))

theorem logicalContent_of_writePosition (h : s.writePosition = 0) :
    s.logicalContent = s.fileHandle.content := by
  rw [logicalContent, unwritten, h, fromBuffer, List.take_zero, Overlay.overlay_nil]

theorem Refines.logicalPosition (h : Refines b u) : u.position = b.logicalPosition := by
  have hposition := h.position
  have hlt := b.position.isLt
  have hlt' := u.position.isLt
  have hused := h.buffers.used
  have hread := h.buffers.read
  have hwritten := h.buffers.written
  have hlength := h.buffers.bufferLength_lt
  refine BitVec.eq_of_toNat_eq ?_
  rw [PhFileStream.logicalPosition, BitVec.toNat_add, BitVec.toNat_sub, BitVec.toNat_ofNat,
    BitVec.toNat_ofNat]
  omega

def Empty (s : PhFileStream) : Prop := s.readPosition = s.readLength ∧ s.writePosition = 0

theorem Refines.of_empty (hbuffers : Buffers b) (hplain : Plain u) (hempty : Empty b)
    (hposition : u.position = b.position) (hcontent : u.fileHandle.content = b.fileHandle.content) :
    Refines b u where
  buffers := hbuffers
  plain := hplain
  position := by rw [hposition, hempty.1, hempty.2, Nat.sub_self]
  content := by rw [hcontent, logicalContent_of_writePosition hempty.2]
  ahead hlt := absurd hempty.1 hlt.ne

theorem Refines.empty (h : Refines b u) (hempty : Empty b) :
    u.position = b.position ∧ u.fileHandle.content = b.fileHandle.content := by
  have hposition := h.position
  rw [hempty.1, hempty.2, Nat.sub_self] at hposition
  exact ⟨BitVec.eq_of_toNat_eq hposition,
    h.content.trans (logicalContent_of_writePosition hempty.2)⟩

theorem Buffers.of_empty {b' : PhFileStream} (h : Buffers b)
    (hbuffered : b'.unbuffered = b.unbuffered) (hlength : b'.bufferLength = b.bufferLength)
    (hbuffer : b'.buffer = b.buffer) (haligned : b'.Aligned) (hempty : Empty b')
    (hread : b'.readLength ≤ b.readLength) : Buffers b' where
  buffered := hbuffered.trans h.buffered
  bufferLength_pos := hlength ▸ h.bufferLength_pos
  bufferLength_lt := hlength ▸ h.bufferLength_lt
  aligned := haligned
  used := hempty.1.le
  read := hlength ▸ hread.trans h.read
  written := hempty.2 ▸ Nat.zero_le _
  exclusive hne := absurd hempty.2 hne
  allocated := by
    rw [hbuffer, hlength]
    exact h.allocated
  needed hne := by
    rw [hbuffer]
    refine h.needed (.inl fun hzero => ?_)
    rcases hne with hne | hne
    · exact hne (Nat.le_zero.mp (hzero ▸ hread))
    · exact hne hempty.2

theorem Buffers.allocate (h : Buffers b) : Buffers b.phpAllocateBufferFileStream where
  buffered := h.buffered
  bufferLength_pos := h.bufferLength_pos
  bufferLength_lt := h.bufferLength_lt
  aligned := h.aligned
  used := h.used
  read := h.read
  written := h.written
  exclusive := h.exclusive
  allocated buffer hsome := by
    rw [← Option.some.inj hsome]
    cases hbuffer : b.buffer with
    | none => exact List.length_replicate
    | some buffer => exact h.allocated buffer hbuffer
  needed _ := rfl

theorem Refines.room (h : Refines b u) : b.position.toNat < 2 ^ 63 := by
  have hposition := h.position
  have hroom := h.plain.room
  by_cases hlt : b.readPosition < b.readLength
  · have hle := (h.ahead hlt).1
    have hwrite : b.writePosition = 0 := by
      by_contra hne
      rw [h.buffers.exclusive hne] at hlt
      exact absurd hlt (Nat.not_lt_zero _)
    have hsize := h.plain.size
    rw [h.content, logicalContent_of_writePosition hwrite] at hsize
    omega
  · omega

theorem Refines.writePosition_of_lt (h : Refines b u) (hlt : b.readPosition < b.readLength) :
    b.writePosition = 0 := by
  by_contra hne
  rw [h.buffers.exclusive hne] at hlt
  exact Nat.not_lt_zero _ hlt

theorem Refines.content_of_lt (h : Refines b u) (hlt : b.readPosition < b.readLength) :
    u.fileHandle.content = b.fileHandle.content :=
  h.content.trans (logicalContent_of_writePosition (h.writePosition_of_lt hlt))

theorem Refines.flushWrite (h : Refines b u) (hwrite : b.writePosition ≠ 0) :
    ∃ b', b.phpFlushWriteFileStream = (.ok (), b') ∧ Refines b' u ∧ Empty b' ∧
      b'.readLength = 0 := by
  have hread := h.buffers.exclusive hwrite
  have hused : b.readPosition = 0 := Nat.le_zero.mp (hread ▸ h.buffers.used)
  have hlength : (b.fromBuffer 0 b.writePosition).length = b.writePosition :=
    h.buffers.length_unwritten
  have hposition := h.position
  rw [hread, hused, Nat.sub_self, Nat.add_zero] at hposition
  have hroom := h.plain.room
  rw [phpFlushWriteFileStream, phpWriteFileStream_eq h.buffers.aligned h.room]
  have hempty : Empty { b.movedTo (Overlay.overlay 0 b.fileHandle.content b.position.toNat
      (b.fromBuffer 0 b.writePosition)) (b.position +
        BitVec.ofNat 64 (b.fromBuffer 0 b.writePosition).length) with writePosition := 0 } :=
    ⟨hused.trans hread.symm, rfl⟩
  refine ⟨_, rfl, .of_empty (h.buffers.of_empty rfl rfl rfl (aligned_movedTo ..) hempty
    (Nat.le_refl _)) h.plain hempty ?_ h.content, hempty, hread⟩
  show u.position = b.position + BitVec.ofNat 64 (b.fromBuffer 0 b.writePosition).length
  refine BitVec.eq_of_toNat_eq ?_
  rw [toNat_add_ofNat (by omega), hlength, hposition]

theorem Refines.flushRead (h : Refines b u) (hwrite : b.writePosition = 0)
    (hlong : b.readLength - b.readPosition ≤ 2 ^ 31) :
    ∃ b', b.phpFlushReadFileStream = (.ok (), b') ∧ Refines b' u ∧ Empty b' ∧
      b'.readLength = 0 := by
  have hused := h.buffers.used
  have hlt := Nat.lt_of_le_of_lt h.buffers.read h.buffers.bufferLength_lt
  have hposition := h.logicalPosition
  rw [PhFileStream.logicalPosition, hwrite, BitVec.add_zero] at hposition
  have hcontent := h.content
  rw [logicalContent_of_writePosition hwrite] at hcontent
  rw [phpFlushReadFileStream]
  by_cases hdrained : b.readLength = b.readPosition
  · have hzero := (ulongSub_eq_zero hused).mpr hdrained
    have hempty : Empty { b with readPosition := 0, readLength := 0 } := ⟨rfl, hwrite⟩
    simp only [hzero, ne_eq, not_true_eq_false, if_false]
    refine ⟨_, rfl, .of_empty (h.buffers.of_empty rfl rfl rfl h.buffers.aligned hempty
      (Nat.zero_le _)) h.plain hempty ?_ hcontent, hempty, rfl⟩
    rw [hposition, hdrained, Nat.sub_self, BitVec.sub_zero]
  · have hne : ulongSub b.readLength b.readPosition ≠ 0 :=
      fun hzero => hdrained ((ulongSub_eq_zero hused).mp hzero)
    have htarget : b.seekPosition (negLong (ulongSub b.readLength b.readPosition)) .seekCurrent =
        u.position := by
      show b.position + negLong (ulongSub b.readLength b.readPosition) = u.position
      rw [hposition, ulongSub_of_le hused, negLong_eq hlong, BitVec.sub_eq_add_neg]
    have hroom : (b.seekPosition (negLong (ulongSub b.readLength b.readPosition))
        .seekCurrent).toNat < 2 ^ 63 := by
      rw [htarget]
      exact h.plain.room
    have hempty : Empty { b.soughtTo u.position with readPosition := 0, readLength := 0 } :=
      ⟨rfl, hwrite⟩
    have haligned : Aligned { b.soughtTo u.position with readPosition := 0, readLength := 0 } :=
      aligned_soughtTo b u.position
    rw [if_pos hne, phpSeekFileStream_eq hroom, htarget]
    exact ⟨_, rfl, .of_empty (h.buffers.of_empty rfl rfl rfl haligned hempty (Nat.zero_le _))
      h.plain hempty rfl (hcontent.trans (content_soughtTo b u.position).symm), hempty, rfl⟩

/-! ## Reading -/

/-- Both calls have the same result, and the streams stand for each other afterwards. -/
def Agrees {α : Type} (x y : Except NtStatus α × PhFileStream) : Prop :=
  x.1 = y.1 ∧ Refines x.2 y.2

theorem Plain.movedTo (h : Plain u) {content : List UInt8} {position : LargeInteger}
    (hroom : position.toNat < 2 ^ 63) (hsize : content.length < 2 ^ 63) :
    Plain (u.movedTo content position) where
  unbuffered := h.unbuffered
  aligned := aligned_movedTo ..
  cursors := h.cursors
  room := hroom
  size := hsize

theorem length_take_drop_le (l : List UInt8) (position length : Nat) :
    ((l.drop position).take length).length ≤ l.length - position := by
  rw [List.length_take, List.length_drop]
  exact Nat.min_le_right ..

theorem Plain.read (h : Plain u) (hend : u.position.toNat < u.fileHandle.content.length)
    (length : Nat) : (u.position + BitVec.ofNat 64
      ((u.fileHandle.content.drop u.position.toNat).take length).length).toNat = u.position.toNat +
        ((u.fileHandle.content.drop u.position.toNat).take length).length ∧
    Plain (u.movedTo u.fileHandle.content (u.position + BitVec.ofNat 64
      ((u.fileHandle.content.drop u.position.toNat).take length).length)) := by
  have hle := length_take_drop_le u.fileHandle.content u.position.toNat length
  have hsize := h.size
  have htoNat := toNat_add_ofNat (x := u.position)
    (n := ((u.fileHandle.content.drop u.position.toNat).take length).length) (by omega)
  exact ⟨htoNat, h.movedTo (by omega) hsize⟩

theorem Refines.phpReadFileStream (h : Refines b u) (hempty : Empty b) (length : Nat) :
    Agrees (b.phpReadFileStream length) (u.phpReadFileStream length) := by
  obtain ⟨hposition, hcontent⟩ := h.empty hempty
  rw [phpReadFileStream_eq h.buffers.aligned h.room, phpReadFileStream_eq h.plain.aligned
    h.plain.room, ← hposition, ← hcontent]
  by_cases hend : u.fileHandle.content.length ≤ u.position.toNat
  · rw [if_pos hend, if_pos hend]
    exact ⟨rfl, h⟩
  · rw [if_neg hend, if_neg hend]
    exact ⟨rfl, .of_empty (h.buffers.of_empty rfl rfl rfl (aligned_movedTo ..) hempty (Nat.le_refl _))
      (h.plain.read (Nat.not_le.mp hend) length).2 hempty rfl rfl⟩

theorem fromBuffer_take (s : PhFileStream) (offset length length' : Nat) :
    (s.fromBuffer offset length).take length' = s.fromBuffer offset (min length' length) := by
  rw [fromBuffer, fromBuffer, List.take_take]

theorem fromBuffer_drop (s : PhFileStream) (offset length n : Nat) :
    (s.fromBuffer offset length).drop n = s.fromBuffer (offset + n) (length - n) := by
  rw [fromBuffer, fromBuffer, List.drop_take, List.drop_drop]

theorem Refines.use (h : Refines b u) {n : Nat} (hn : n ≤ b.readLength - b.readPosition)
    (hlt : b.readPosition < b.readLength) :
    Refines { b with readPosition := b.readPosition + n }
      (u.movedTo u.fileHandle.content (u.position + BitVec.ofNat 64 n)) := by
  obtain ⟨hle, hunread, hshort⟩ := h.ahead hlt
  have hposition := h.position
  have hsize := h.plain.size
  have hused := h.buffers.used
  have hwrite := h.writePosition_of_lt hlt
  have hcontent := h.content_of_lt hlt
  have htoNat : (u.position + BitVec.ofNat 64 n).toNat = u.position.toNat + n :=
    toNat_add_ofNat (by rw [hcontent] at hsize; omega)
  refine ⟨⟨h.buffers.buffered, h.buffers.bufferLength_pos, h.buffers.bufferLength_lt,
    h.buffers.aligned, ?_, h.buffers.read, h.buffers.written, h.buffers.exclusive,
    h.buffers.allocated, h.buffers.needed⟩, h.plain.movedTo ?_ hsize, ?_, h.content,
    fun hlt' => ⟨hle, ?_, hshort⟩⟩
  · show b.readPosition + n ≤ b.readLength
    omega
  · rw [htoNat]
    rw [hcontent] at hsize
    omega
  · show (u.position + BitVec.ofNat 64 n).toNat + (b.readLength - (b.readPosition + n)) =
      b.position.toNat + b.writePosition
    rw [htoNat]
    omega
  · show b.fromBuffer (b.readPosition + n) (b.readLength - (b.readPosition + n)) =
      (b.fileHandle.content.drop (u.position + BitVec.ofNat 64 n).toNat).take
        (b.readLength - (b.readPosition + n))
    have hdrop : b.unread.drop n = b.fromBuffer (b.readPosition + n)
        (b.readLength - b.readPosition - n) := fromBuffer_drop ..
    rw [htoNat, Nat.sub_add_eq, ← hdrop, hunread, List.drop_take, List.drop_drop]

theorem Refines.serve (h : Refines b u) (hlt : b.readPosition < b.readLength) {n length : Nat}
    (hn : n ≤ b.readLength - b.readPosition)
    (hall : (b.fileHandle.content.drop u.position.toNat).take length =
      (b.fileHandle.content.drop u.position.toNat).take n) :
    Agrees (.ok (b.fromBuffer b.readPosition n), { b with readPosition := b.readPosition + n })
      (u.phpReadFileStream length) := by
  obtain ⟨hle, hunread, -⟩ := h.ahead hlt
  have hposition := h.position
  have hcontent := h.content_of_lt hlt
  have hwrite := h.writePosition_of_lt hlt
  have hdata : b.fromBuffer b.readPosition n =
      (b.fileHandle.content.drop u.position.toNat).take n := by
    have htake : b.unread.take n = b.fromBuffer b.readPosition (min n (b.readLength - b.readPosition)) :=
      fromBuffer_take ..
    rw [Nat.min_eq_left hn] at htake
    rw [← htake, hunread, List.take_take, Nat.min_eq_left hn]
  have hlength : ((b.fileHandle.content.drop u.position.toNat).take n).length = n := by
    rw [List.length_take, List.length_drop]
    omega
  have hinside : ¬u.fileHandle.content.length ≤ u.position.toNat := by
    rw [hcontent]
    omega
  rw [phpReadFileStream_eq h.plain.aligned h.plain.room, if_neg hinside]
  have huse := h.use hn hlt
  rw [hcontent] at huse ⊢
  rw [hall, hdata, hlength]
  exact ⟨rfl, huse⟩

theorem Refines.serveBoth (h : Refines b u) (hlt : b.readPosition < b.readLength) {length : Nat}
    (hlength : b.readLength - b.readPosition < length)
    (hinside : b.position.toNat < b.fileHandle.content.length) :
    let data := (b.fileHandle.content.drop b.position.toNat).take
      (length - (b.readLength - b.readPosition))
    Agrees (.ok (b.fromBuffer b.readPosition (b.readLength - b.readPosition) ++ data),
      { b.movedTo b.fileHandle.content (b.position + BitVec.ofNat 64 data.length) with
        readPosition := 0, readLength := 0 }) (u.phpReadFileStream length) := by
  intro data
  obtain ⟨hle, hunread, -⟩ := h.ahead hlt
  have hposition := h.position
  have hcontent := h.content_of_lt hlt
  have hwrite := h.writePosition_of_lt hlt
  have hsplit : b.unread ++ data = (b.fileHandle.content.drop u.position.toNat).take length := by
    have hdrop : b.fileHandle.content.drop b.position.toNat =
        (b.fileHandle.content.drop u.position.toNat).drop (b.readLength - b.readPosition) := by
      rw [List.drop_drop]
      congr 1
      omega
    show b.unread ++ (b.fileHandle.content.drop b.position.toNat).take _ = _
    rw [hunread, hdrop, ← List.take_add]
    congr 1
    omega
  have hend : ¬u.fileHandle.content.length ≤ u.position.toNat := by
    rw [hcontent]
    omega
  have hread := h.plain.read (Nat.not_le.mp hend) length
  rw [hcontent, ← hsplit, List.length_append, h.buffers.length_unread] at hread
  rw [phpReadFileStream_eq h.plain.aligned h.plain.room, if_neg hend, hcontent, ← hsplit,
    List.length_append, h.buffers.length_unread]
  have hempty : Empty { b.movedTo b.fileHandle.content (b.position + BitVec.ofNat 64 data.length) with
      readPosition := 0, readLength := 0 } := ⟨rfl, hwrite⟩
  refine ⟨rfl, .of_empty (h.buffers.of_empty rfl rfl rfl (aligned_movedTo ..) hempty (Nat.zero_le _))
    hread.2 hempty ?_ rfl⟩
  have hdata : data.length ≤ b.fileHandle.content.length - b.position.toNat :=
    length_take_drop_le ..
  have hsize := h.plain.size
  rw [hcontent] at hsize
  refine BitVec.eq_of_toNat_eq ?_
  show (u.position + _).toNat = (b.position + _).toNat
  rw [hread.1, toNat_add_ofNat (by omega)]
  omega

theorem Refines.readFromBuffer (h : Refines b u) (hlt : b.readPosition < b.readLength)
    {length : Nat} (hsound : ¬(b.readLength - b.readPosition < length ∧
      b.readLength = b.bufferLength ∧ b.fileHandle.content.length ≤ b.position.toNat)) :
    Agrees (b.readFromBuffer (b.readLength - b.readPosition) length)
      (u.phpReadFileStream length) := by
  have hposition := h.position
  have hwrite := h.writePosition_of_lt hlt
  rw [PhFileStream.readFromBuffer]
  by_cases hsmall : length ≤ b.readLength - b.readPosition
  · rw [Nat.min_eq_right hsmall, if_neg fun hno => Nat.lt_irrefl _ hno.1]
    exact h.serve hlt hsmall rfl
  · have hlength := Nat.not_le.mp hsmall
    rw [Nat.min_eq_left hlength.le]
    by_cases hfull : b.readLength = b.bufferLength
    · have hinside : b.position.toNat < b.fileHandle.content.length :=
        Nat.not_le.mp fun hno => hsound ⟨hlength, hfull, hno⟩
      have hread : PhFileStream.phpReadFileStream
          { b with readPosition := b.readPosition + (b.readLength - b.readPosition) }
          (length - (b.readLength - b.readPosition)) = _ :=
        (phpReadFileStream_eq (s := { b with
          readPosition := b.readPosition + (b.readLength - b.readPosition) })
          h.buffers.aligned h.room _).trans (if_neg (Nat.not_le.mpr hinside))
      rw [if_pos ⟨hlength, hfull⟩, hread]
      exact h.serveBoth hlt hlength hinside
    · obtain ⟨-, -, hshort⟩ := h.ahead hlt
      rw [if_neg fun hno => hfull hno.2]
      refine h.serve hlt (Nat.le_refl _) ?_
      have hend := hshort.resolve_left hfull
      rw [List.take_of_length_le, List.take_of_length_le]
      · rw [List.length_drop]
        omega
      · rw [List.length_drop]
        omega

def filled (s : PhFileStream) (data : List UInt8) : PhFileStream :=
  { (s.phpAllocateBufferFileStream.movedTo s.fileHandle.content
      (s.position + BitVec.ofNat 64 data.length)).copyToBuffer 0 data with
    readPosition := 0, readLength := data.length }

theorem buffer_allocated (s : PhFileStream) (data : List UInt8) :
    (s.phpAllocateBufferFileStream.copyToBuffer 0 data).buffer =
      some (data ++ (s.buffer.getD (List.replicate s.bufferLength 0)).drop data.length) :=
  congrArg some Overlay.overlay_zero

variable {data : List UInt8}

theorem Buffers.length_allocated (h : Buffers s)
    (hle : data.length ≤ s.bufferLength) :
    (data ++ (s.buffer.getD (List.replicate s.bufferLength 0)).drop data.length).length =
      s.bufferLength := by
  have hlength : (s.buffer.getD (List.replicate s.bufferLength 0)).length = s.bufferLength := by
    cases hbuffer : s.buffer with
    | none => exact List.length_replicate
    | some buffer => exact h.allocated buffer hbuffer
  rw [List.length_append, List.length_drop, hlength]
  omega

theorem Refines.fill (h : Refines b u) (hempty : Empty b)
    (hdata : data = (b.fileHandle.content.drop b.position.toNat).take b.bufferLength) :
    Refines (b.filled data) u := by
  obtain ⟨hposition, hcontent⟩ := h.empty hempty
  have hle : data.length ≤ b.bufferLength := hdata ▸ List.length_take_le ..
  have hle' : data.length ≤ b.fileHandle.content.length - b.position.toNat :=
    hdata ▸ length_take_drop_le ..
  have hsize := h.plain.size
  have hroom := h.room
  rw [hcontent] at hsize
  have htoNat : (b.position + BitVec.ofNat 64 data.length).toNat = b.position.toNat + data.length :=
    toNat_add_ofNat (by omega)
  have hbuffer : (b.filled data).buffer =
      some (data ++ (b.buffer.getD (List.replicate b.bufferLength 0)).drop data.length) :=
    buffer_allocated b data
  refine ⟨⟨h.buffers.buffered, h.buffers.bufferLength_pos, h.buffers.bufferLength_lt,
    aligned_movedTo .., Nat.zero_le _, hle, h.buffers.written, fun hne => absurd hempty.2 hne,
    fun buffer hsome => ?_, fun _ => hbuffer ▸ rfl⟩, h.plain, ?_, ?_, fun hlt => ⟨?_, ?_, ?_⟩⟩
  · rw [hbuffer] at hsome
    rw [← Option.some.inj hsome]
    exact h.buffers.length_allocated hle
  · show u.position.toNat + (data.length - 0) =
      (b.position + BitVec.ofNat 64 data.length).toNat + b.writePosition
    rw [htoNat, hempty.2, hposition]
    omega
  · rw [logicalContent_of_writePosition (s := b.filled data) hempty.2]
    exact hcontent
  · show (b.position + BitVec.ofNat 64 data.length).toNat ≤ b.fileHandle.content.length
    have hpos : 0 < data.length := hlt
    omega
  · have hunread : (b.filled data).unread = data := by
      rw [unread, fromBuffer, hbuffer, Option.getD_some]
      show (List.drop 0 _).take (data.length - 0) = data
      rw [List.drop_zero, Nat.sub_zero, List.take_left']
      rfl
    rw [hunread]
    show data = (b.fileHandle.content.drop u.position.toNat).take (data.length - 0)
    rw [hposition, Nat.sub_zero]
    have htake : (b.fileHandle.content.drop b.position.toNat).take data.length =
        data.take data.length := by
      rw [hdata, List.take_take, List.length_take]
      congr 1
      omega
    rw [htake, List.take_length]
  · show data.length = b.bufferLength ∨
      b.fileHandle.content.length ≤ (b.position + BitVec.ofNat 64 data.length).toNat
    rw [htoNat]
    have hlength : data.length = min b.bufferLength (b.fileHandle.content.length - b.position.toNat) := by
      rw [hdata, List.length_take, List.length_drop]
    omega

theorem Refines.readFromFile (h : Refines b u) (hempty : Empty b) (length : Nat) :
    Agrees (b.readFromFile length) (u.phpReadFileStream length) := by
  obtain ⟨hposition, hcontent⟩ := h.empty hempty
  rw [PhFileStream.readFromFile]
  by_cases hlarge : b.bufferLength ≤ length
  · rw [if_pos hlarge]
    have hreset : Empty { b with readPosition := 0, readLength := 0 } := ⟨rfl, hempty.2⟩
    have hrefines : Refines { b with readPosition := 0, readLength := 0 } u :=
      .of_empty (h.buffers.of_empty rfl rfl rfl h.buffers.aligned hreset (Nat.zero_le _)) h.plain
        hreset hposition hcontent
    exact hrefines.phpReadFileStream hreset length
  · rw [if_neg hlarge]
    by_cases hend : b.fileHandle.content.length ≤ b.position.toNat
    · have hread : b.phpAllocateBufferFileStream.phpReadFileStream b.bufferLength = _ :=
        (phpReadFileStream_eq h.buffers.allocate.aligned h.room _).trans (if_pos hend)
      have hread' : u.phpReadFileStream length = _ :=
        (phpReadFileStream_eq h.plain.aligned h.plain.room _).trans
          (if_pos (hposition ▸ hcontent ▸ hend))
      rw [hread, hread']
      refine ⟨rfl, .of_empty ?_ h.plain hempty hposition hcontent⟩
      exact h.buffers.allocate
    · have hread : b.phpAllocateBufferFileStream.phpReadFileStream b.bufferLength = _ :=
        (phpReadFileStream_eq h.buffers.allocate.aligned h.room _).trans (if_neg hend)
      have hne : (b.fileHandle.content.drop b.position.toNat).take b.bufferLength ≠ [] := by
        intro hnil
        have hlength := congrArg List.length hnil
        rw [List.length_take, List.length_drop, List.length_nil] at hlength
        have hpos := h.buffers.bufferLength_pos
        omega
      rw [hread]
      show Agrees (if (b.fileHandle.content.drop b.position.toNat).take b.bufferLength = [] then _
        else _) _
      rw [if_neg hne]
      have hfill := h.fill hempty rfl
      refine hfill.readFromBuffer (List.length_pos_iff.mpr hne) fun hno => ?_
      have hshort : ((b.fileHandle.content.drop b.position.toNat).take b.bufferLength).length <
        length := hno.1
      have hfull : ((b.fileHandle.content.drop b.position.toNat).take b.bufferLength).length =
        b.bufferLength := hno.2.1
      omega

/-- The call does not end a read from a full buffer at the end of the file. -/
def SoundRead (s : PhFileStream) (length : Nat) : Prop :=
  ¬(s.readPosition < s.readLength ∧ s.readLength - s.readPosition < length ∧
    s.readLength = s.bufferLength ∧ s.fileHandle.content.length ≤ s.position.toNat)

theorem Refines.phReadFileStream (h : Refines b u) {length : Nat} (hsound : b.SoundRead length) :
    Agrees (b.phReadFileStream length) (u.phReadFileStream length) := by
  have hlt := Nat.lt_of_le_of_lt h.buffers.read h.buffers.bufferLength_lt
  have hused := h.buffers.used
  rw [PhFileStream.phReadFileStream, PhFileStream.phReadFileStream, h.buffers.buffered,
    h.plain.unbuffered, if_neg Bool.false_ne_true, if_pos rfl]
  by_cases hdrained : b.readLength = b.readPosition
  · rw [if_pos ((ulongSub_eq_zero hused).mpr hdrained)]
    by_cases hwrite : b.writePosition = 0
    · simp only [hwrite, ne_eq, not_true_eq_false, if_false]
      exact h.readFromFile ⟨hdrained.symm, hwrite⟩ length
    · obtain ⟨b', hflush, hrefines, hempty, -⟩ := h.flushWrite hwrite
      simp only [hwrite, ne_eq, not_false_eq_true, if_true, hflush]
      exact hrefines.readFromFile hempty length
  · rw [if_neg fun hzero => hdrained ((ulongSub_eq_zero hused).mp hzero),
      ulongSub_of_le hused]
    have hahead : b.readPosition < b.readLength := by omega
    exact h.readFromBuffer hahead fun hno => hsound ⟨hahead, hno⟩

/-! ## Writing -/

theorem Plain.write (h : Plain u) (data : List UInt8)
    (hroom : u.position.toNat + data.length < 2 ^ 63) :
    (u.position + BitVec.ofNat 64 data.length).toNat = u.position.toNat + data.length ∧
    Plain (u.movedTo (Overlay.overlay 0 u.fileHandle.content u.position.toNat data)
      (u.position + BitVec.ofNat 64 data.length)) := by
  have htoNat := toNat_add_ofNat (x := u.position) (n := data.length) (by omega)
  have hlength := Overlay.length_overlay_le 0 u.fileHandle.content u.position.toNat data
  have hsize := h.size
  refine ⟨htoNat, h.movedTo (by omega) ?_⟩
  omega

theorem Plain.phpWriteFileStream_append (h : Plain u) (data data' : List UInt8)
    (hroom : u.position.toNat + (data ++ data').length < 2 ^ 63) :
    (u.phpWriteFileStream data).2.phpWriteFileStream data' = u.phpWriteFileStream (data ++ data') := by
  rw [List.length_append] at hroom
  obtain ⟨htoNat, hplain⟩ := h.write data (by omega)
  rw [phpWriteFileStream_eq h.aligned h.room, phpWriteFileStream_eq h.aligned h.room]
  show phpWriteFileStream (u.movedTo _ _) data' = _
  rw [phpWriteFileStream_eq hplain.aligned hplain.room]
  show (Except.ok (), u.movedTo (Overlay.overlay 0 (Overlay.overlay 0 _ _ data)
    (u.position + BitVec.ofNat 64 data.length).toNat data')
      (u.position + BitVec.ofNat 64 data.length + BitVec.ofNat 64 data'.length)) = _
  rw [htoNat, Overlay.overlay_append, BitVec.add_assoc, ← BitVec.ofNat_add, List.length_append]

theorem Refines.phpWriteFileStream (h : Refines b u) (hempty : Empty b)
    (hroom : u.position.toNat + data.length < 2 ^ 63) :
    Agrees (b.phpWriteFileStream data) (u.phpWriteFileStream data) := by
  obtain ⟨hposition, hcontent⟩ := h.empty hempty
  rw [phpWriteFileStream_eq h.buffers.aligned h.room, phpWriteFileStream_eq h.plain.aligned
    h.plain.room]
  refine ⟨rfl, .of_empty (h.buffers.of_empty rfl rfl rfl (aligned_movedTo ..) hempty (Nat.le_refl _))
    (h.plain.write data hroom).2 hempty ?_ ?_⟩
  · show u.position + _ = b.position + _
    rw [hposition]
  · show Overlay.overlay 0 _ _ data = Overlay.overlay 0 _ _ data
    rw [hposition, hcontent]

theorem Refines.collect (h : Refines b u) (data : List UInt8) {buffer : List UInt8}
    (hread : b.readPosition = 0 ∧ b.readLength = 0) (hbuffer : b.buffer = some buffer)
    (hfits : b.writePosition + data.length ≤ b.bufferLength)
    (hroom : u.position.toNat + data.length < 2 ^ 63) :
    Refines { b.copyToBuffer b.writePosition data with
      writePosition := b.writePosition + data.length } (u.phpWriteFileStream data).2 := by
  have hlength := h.buffers.allocated buffer hbuffer
  have hposition := h.position
  obtain ⟨htoNat, hplain⟩ := h.plain.write data hroom
  have hold : (buffer.take b.writePosition).length = b.writePosition := by
    rw [List.length_take]
    omega
  have hunwritten : b.unwritten = buffer.take b.writePosition := by
    rw [unwritten, fromBuffer, hbuffer, Option.getD_some, List.drop_zero]
  have hnew : (Overlay.overlay 0 buffer b.writePosition data).take
      (b.writePosition + data.length) = buffer.take b.writePosition ++ data := by
    rw [Overlay.overlay]
    split
    · next hnil => rw [hnil, List.length_nil, Nat.add_zero, List.append_nil]
    · have hgap : b.writePosition - buffer.length = 0 := by omega
      rw [hgap, List.replicate_zero, List.append_nil]
      refine List.take_left' ?_
      rw [List.length_append, hold]
  have hlater : (Overlay.overlay 0 buffer b.writePosition data).length = b.bufferLength := by
    rw [Overlay.length_overlay]
    split
    · exact hlength
    · rw [hlength]
      omega
  rw [phpWriteFileStream_eq h.plain.aligned h.plain.room]
  refine ⟨⟨h.buffers.buffered, h.buffers.bufferLength_pos, h.buffers.bufferLength_lt,
    h.buffers.aligned, h.buffers.used, h.buffers.read, hfits, fun _ => hread.2,
    fun buffer' hsome => ?_, fun _ => ?_⟩, hplain, ?_, ?_, fun hlt => ?_⟩
  · have hcopied : (b.buffer.map fun buffer => Overlay.overlay 0 buffer b.writePosition data) =
        some buffer' := hsome
    rw [hbuffer] at hcopied
    rw [← Option.some.inj hcopied]
    exact hlater
  · show (b.buffer.map _).isSome
    rw [hbuffer]
    rfl
  · show (u.position + BitVec.ofNat 64 data.length).toNat + _ =
      b.position.toNat + (b.writePosition + data.length)
    rw [htoNat]
    show u.position.toNat + data.length + (b.readLength - b.readPosition) = _
    omega
  · show Overlay.overlay 0 u.fileHandle.content u.position.toNat data =
      Overlay.overlay 0 b.fileHandle.content b.position.toNat
        ((((b.buffer.map fun buffer => Overlay.overlay 0 buffer b.writePosition data).getD
          []).drop 0).take (b.writePosition + data.length))
    rw [hbuffer, Option.map_some, Option.getD_some, List.drop_zero, hnew, h.content, logicalContent,
      hunwritten, ← Overlay.overlay_append, hold]
    congr 1
    omega
  · have hlt' : b.readPosition < b.readLength := hlt
    rw [hread.2] at hlt'
    exact absurd hlt' (Nat.not_lt_zero _)

theorem Refines.collectFirst (h : Refines b u) (hempty : Empty b) (hread : b.readLength = 0) (hfits : data.length ≤ b.bufferLength)
    (hroom : u.position.toNat + data.length < 2 ^ 63) :
    Refines { b.phpAllocateBufferFileStream.copyToBuffer 0 data with
      writePosition := data.length } (u.phpWriteFileStream data).2 := by
  obtain ⟨hposition, hcontent⟩ := h.empty hempty
  have halloc : Refines b.phpAllocateBufferFileStream u :=
    .of_empty h.buffers.allocate h.plain hempty hposition hcontent
  have hwrite : b.phpAllocateBufferFileStream.writePosition = 0 := hempty.2
  have hcollect := halloc.collect data ⟨hempty.1.trans hread, hread⟩ rfl
    (by rw [hwrite, Nat.zero_add]; exact hfits) hroom
  rw [hwrite, Nat.zero_add] at hcollect
  exact hcollect

theorem Plain.phpWriteFileStream_ok (h : Plain u) (data : List UInt8) :
    (u.phpWriteFileStream data).1 = .ok () := by
  rw [phpWriteFileStream_eq h.aligned h.room]

theorem Refines.writeToEmpty (h : Refines b u) (hempty : Empty b) (hread : b.readLength = 0) (hroom : u.position.toNat + data.length < 2 ^ 63) :
    Agrees (b.writeToEmpty data) (u.phpWriteFileStream data) := by
  obtain ⟨hposition, hcontent⟩ := h.empty hempty
  have hok := h.plain.phpWriteFileStream_ok data
  rw [PhFileStream.writeToEmpty]
  by_cases hlarge : b.bufferLength ≤ data.length
  · rw [if_pos hlarge]
    exact h.phpWriteFileStream hempty hroom
  · rw [if_neg hlarge]
    by_cases hnil : data.length = 0
    · rw [if_neg (not_not.mpr hnil)]
      refine ⟨hok.symm, ?_⟩
      have hdata : data = [] := List.length_eq_zero_iff.mp hnil
      rw [phpWriteFileStream_eq h.plain.aligned h.plain.room]
      refine .of_empty h.buffers (h.plain.write data hroom).2 hempty ?_ ?_
      · show u.position + BitVec.ofNat 64 data.length = b.position
        rw [hnil, BitVec.add_zero, hposition]
      · show Overlay.overlay 0 _ _ data = b.fileHandle.content
        rw [hdata, Overlay.overlay_nil, hcontent]
    · rw [if_pos hnil]
      exact ⟨hok.symm, h.collectFirst hempty hread (Nat.le_of_not_le hlarge) hroom⟩

/-- The write does not wrap around, and what was read ahead is in the range of a `LONG`. -/
def SoundWrite (s : PhFileStream) (data : List UInt8) : Prop :=
  s.readLength - s.readPosition ≤ 2 ^ 31 ∧ s.logicalPosition.toNat + data.length < 2 ^ 63

theorem Refines.writeToFilled (h : Refines b u) (hwrite : b.writePosition ≠ 0)
    (hroom : u.position.toNat + data.length < 2 ^ 63) :
    Agrees (b.phWriteFileStream data) (u.phpWriteFileStream data) := by
  have hread := h.buffers.exclusive hwrite
  have hused : b.readPosition = 0 := Nat.le_zero.mp (hread ▸ h.buffers.used)
  have hwritten := h.buffers.written
  obtain ⟨buffer, hbuffer⟩ := Option.isSome_iff_exists.mp (h.buffers.needed (.inr hwrite))
  have hlength : (data.take (min (b.bufferLength - b.writePosition) data.length)).length =
      min (b.bufferLength - b.writePosition) data.length := by
    rw [List.length_take]
    omega
  have hcollect := h.collect
    (data.take (min (b.bufferLength - b.writePosition) data.length)) ⟨hused, hread⟩ hbuffer
    (by rw [hlength]; omega) (by rw [hlength]; omega)
  rw [hlength] at hcollect
  rw [PhFileStream.phWriteFileStream, h.buffers.buffered, if_neg Bool.false_ne_true]
  simp only [hwrite, if_false, ne_eq, not_false_eq_true, if_true, ulongSub_of_le hwritten]
  by_cases hfits : ¬b.bufferLength - b.writePosition = 0 ∧
      min (b.bufferLength - b.writePosition) data.length = data.length
  · rw [if_pos hfits]
    rw [hfits.2, List.take_length] at hcollect ⊢
    exact ⟨(h.plain.phpWriteFileStream_ok data).symm, hcollect⟩
  · rw [if_neg hfits]
    obtain ⟨b', hflush, hrefines, hempty, hread'⟩ := hcollect.flushWrite (by
      show b.writePosition + _ ≠ 0
      omega)
    rw [hflush]
    have hsplit := h.plain.phpWriteFileStream_append
      (data.take (min (b.bufferLength - b.writePosition) data.length))
      (data.drop (min (b.bufferLength - b.writePosition) data.length))
      (by rw [List.take_append_drop]; exact hroom)
    rw [List.take_append_drop] at hsplit
    rw [← hsplit]
    refine hrefines.writeToEmpty hempty hread' ?_
    have hposition := (h.plain.write
      (data.take (min (b.bufferLength - b.writePosition) data.length))
      (by rw [hlength]; omega)).1
    rw [phpWriteFileStream_eq h.plain.aligned h.plain.room]
    show (u.position + _).toNat + _ < _
    rw [hposition, hlength, List.length_drop]
    omega

theorem Refines.phWriteFileStream (h : Refines b u)
    (hsound : b.SoundWrite data) : Agrees (b.phWriteFileStream data) (u.phWriteFileStream data) := by
  obtain ⟨hlong, hroom⟩ := hsound
  rw [← h.logicalPosition] at hroom
  have hplain : u.phWriteFileStream data = u.phpWriteFileStream data := by
    rw [PhFileStream.phWriteFileStream, h.plain.unbuffered, if_pos rfl]
  rw [hplain]
  by_cases hwrite : b.writePosition = 0
  · obtain ⟨b', hflush, hrefines, hempty, hread⟩ := h.flushRead hwrite hlong
    rw [PhFileStream.phWriteFileStream, h.buffers.buffered, if_neg Bool.false_ne_true]
    simp only [hwrite, if_true, hflush, hempty.2, ne_eq, not_true_eq_false, if_false]
    exact hrefines.writeToEmpty hempty hread hroom
  · exact h.writeToFilled hwrite hroom

/-! ## Flushing and seeking -/

/-- What was read ahead is in the range of a `LONG`, if any of it was used. -/
def SoundFlush (s : PhFileStream) : Prop :=
  s.readPosition ≠ 0 → s.readLength - s.readPosition ≤ 2 ^ 31

theorem Plain.phFlushFileStream (h : Plain u) : u.phFlushFileStream = (.ok (), u) := by
  obtain ⟨hread, -, hwrite⟩ := h.cursors
  rw [PhFileStream.phFlushFileStream]
  simp only [hread, hwrite, ne_eq, not_true_eq_false, if_false]

theorem Refines.phFlushFileStream (h : Refines b u) (hsound : b.SoundFlush) :
    ∃ b', b.phFlushFileStream = (.ok (), b') ∧ Refines b' u ∧
      b'.fileHandle.content = u.fileHandle.content := by
  rw [PhFileStream.phFlushFileStream]
  by_cases hwrite : b.writePosition = 0
  · simp only [hwrite, ne_eq, not_true_eq_false, if_false]
    by_cases hread : b.readPosition = 0
    · simp only [hread, not_true_eq_false, if_false]
      exact ⟨b, rfl, h, (h.content.trans (logicalContent_of_writePosition hwrite)).symm⟩
    · obtain ⟨b', hflush, hrefines, hempty, -⟩ := h.flushRead hwrite (hsound hread)
      simp only [hread, not_false_eq_true, if_true]
      exact ⟨b', hflush, hrefines, (hrefines.empty hempty).2.symm⟩
  · obtain ⟨b', hflush, hrefines, hempty, hread⟩ := h.flushWrite hwrite
    simp only [hwrite, ne_eq, not_false_eq_true, if_true, hflush, hempty.1.trans hread,
      not_true_eq_false, if_false]
    exact ⟨b', rfl, hrefines, (hrefines.empty hempty).2.symm⟩

def seekTarget (s : PhFileStream) (offset : LargeInteger) : PhSeekOrigin → LargeInteger
  | .seekStart => offset
  | .seekCurrent => s.logicalPosition + offset
  | .seekEnd => BitVec.ofNat 64 s.logicalContent.length + offset

/-- Something of what was read ahead was used, or nothing was read ahead; and the seek does not
lead before the start of the file. -/
def SoundSeek (s : PhFileStream) (offset : LargeInteger) (origin : PhSeekOrigin) : Prop :=
  (s.writePosition = 0 → s.readPosition = 0 → s.readLength = 0) ∧
    (s.seekTarget offset origin).toNat < 2 ^ 63

theorem Plain.soughtTo (h : Plain u) {position : LargeInteger} (hroom : position.toNat < 2 ^ 63) :
    Plain (u.soughtTo position) where
  unbuffered := h.unbuffered
  aligned := aligned_soughtTo u position
  cursors := h.cursors
  room := hroom
  size := (congrArg List.length (content_soughtTo u position)).trans_lt h.size

theorem Plain.seek (h : Plain u) (hbuffers : Buffers b) (hempty : Empty b)
    (hcontent : u.fileHandle.content = b.fileHandle.content) {offset offset' : LargeInteger} (hsame : b.seekPosition offset' origin = u.seekPosition offset origin)
    (hroom : (u.seekPosition offset origin).toNat < 2 ^ 63) :
    Agrees (b.phpSeekFileStream offset' origin) (u.phpSeekFileStream offset origin) := by
  have hroom' : (b.seekPosition offset' origin).toNat < 2 ^ 63 := by
    rw [hsame]
    exact hroom
  rw [phpSeekFileStream_eq hroom', phpSeekFileStream_eq hroom, hsame]
  refine ⟨rfl, .of_empty (hbuffers.of_empty rfl rfl rfl (aligned_soughtTo ..) hempty
    (Nat.le_refl _)) (h.soughtTo hroom) hempty rfl ?_⟩
  rw [content_soughtTo, content_soughtTo, hcontent]

theorem Refines.seek (h : Refines b u) (hempty : Empty b) {offset : LargeInteger} (hroom : (u.seekPosition offset origin).toNat < 2 ^ 63) :
    Agrees (b.phpSeekFileStream offset origin) (u.phpSeekFileStream offset origin) := by
  obtain ⟨hposition, hcontent⟩ := h.empty hempty
  refine h.plain.seek h.buffers hempty hcontent ?_ hroom
  cases origin with
  | seekStart => rfl
  | seekCurrent => exact congrArg (· + offset) hposition.symm
  | seekEnd => exact congrArg (fun l : List UInt8 => BitVec.ofNat 64 l.length + offset) hcontent.symm

theorem Refines.seekTarget (h : Refines b u) (offset : LargeInteger) (origin : PhSeekOrigin) :
    b.seekTarget offset origin = u.seekPosition offset origin := by
  cases origin with
  | seekStart => rfl
  | seekCurrent => exact congrArg (· + offset) h.logicalPosition.symm
  | seekEnd => exact congrArg (fun l : List UInt8 => BitVec.ofNat 64 l.length + offset) h.content.symm

theorem Refines.phSeekFileStream (h : Refines b u) {offset : LargeInteger}
    (hsound : b.SoundSeek offset origin) :
    Agrees (b.phSeekFileStream offset origin) (u.phSeekFileStream offset origin) := by
  obtain ⟨hused, hroom⟩ := hsound
  rw [h.seekTarget] at hroom
  have hplain : u.phSeekFileStream offset origin = u.phpSeekFileStream offset origin := by
    obtain ⟨hread, -, hwrite⟩ := h.plain.cursors
    rw [PhFileStream.phSeekFileStream, if_neg (not_not.mpr hwrite), if_neg (not_not.mpr hread)]
  rw [hplain, PhFileStream.phSeekFileStream]
  by_cases hwrite : b.writePosition = 0
  · rw [if_neg (not_not.mpr hwrite)]
    by_cases hread : b.readPosition = 0
    · rw [if_neg (not_not.mpr hread)]
      have hempty : Empty b := ⟨hread.trans (hused hwrite hread).symm, hwrite⟩
      exact h.seek hempty hroom
    · have hcontent := h.content.trans (logicalContent_of_writePosition hwrite)
      have hreset : Empty { b with readPosition := 0, readLength := 0 } := ⟨rfl, hwrite⟩
      have hbuffers : Buffers { b with readPosition := 0, readLength := 0 } :=
        h.buffers.of_empty rfl rfl rfl h.buffers.aligned hreset (Nat.zero_le _)
      rw [if_pos hread]
      refine h.plain.seek hbuffers hreset hcontent ?_ hroom
      cases origin with
      | seekStart => rfl
      | seekCurrent =>
          have hposition := h.logicalPosition
          rw [PhFileStream.logicalPosition, hwrite, BitVec.add_zero] at hposition
          show b.position + (offset - BitVec.ofNat 64 (ulongSub b.readLength b.readPosition)) =
            u.position + offset
          rw [hposition, ulongSub_of_le h.buffers.used]
          ring
      | seekEnd =>
          exact congrArg (fun l : List UInt8 => BitVec.ofNat 64 l.length + offset) hcontent.symm
  · obtain ⟨b', hflush, hrefines, hempty, -⟩ := h.flushWrite hwrite
    rw [if_pos hwrite, hflush]
    exact hrefines.seek hempty hroom

/-- Nothing that was read ahead is left. -/
def SoundGetPosition (s : PhFileStream) : Prop := s.readPosition = s.readLength

theorem Refines.phGetPositionFileStream (h : Refines b u) (hsound : b.SoundGetPosition) :
    b.phGetPositionFileStream = u.phGetPositionFileStream := by
  obtain ⟨hread, hread', hwrite⟩ := h.plain.cursors
  have hposition := h.logicalPosition
  have hdrained : b.readPosition = b.readLength := hsound
  rw [PhFileStream.logicalPosition, hdrained, Nat.sub_self, BitVec.sub_zero] at hposition
  rw [PhFileStream.phGetPositionFileStream, PhFileStream.phGetPositionFileStream, hread, hread',
    hwrite, hdrained, ulongSub_of_le (Nat.le_refl _), ulongSub_of_le (Nat.le_refl _), Nat.sub_self,
    BitVec.add_zero, BitVec.add_zero, BitVec.add_zero, hposition]

/-! ## Sequences of calls -/

/-- The call does not reach a place where the buffer shows. -/
def Sound (s : PhFileStream) : FileStreamCall → Prop
  | .read length => s.SoundRead length
  | .write data => s.SoundWrite data
  | .seek offset origin => s.SoundSeek offset origin
  | .flush => s.SoundFlush
  | .getPosition => s.SoundGetPosition

/-- All calls of a sequence are so when they are made. -/
def SoundCalls (s : PhFileStream) : List FileStreamCall → Prop
  | [] => True
  | c :: calls => s.Sound c ∧ (s.call c).2.SoundCalls calls

instance (s : PhFileStream) (c : FileStreamCall) : Decidable (s.Sound c) :=
  match c with
  | .read _ => inferInstanceAs (Decidable (¬(_ ∧ _ ∧ _ ∧ _)))
  | .write _ => inferInstanceAs (Decidable (_ ∧ _))
  | .seek _ _ => inferInstanceAs (Decidable ((_ → _ → _) ∧ _))
  | .flush => inferInstanceAs (Decidable (_ → _))
  | .getPosition => inferInstanceAs (Decidable (_ = _))

instance decidableSoundCalls (s : PhFileStream) : (calls : List FileStreamCall) →
    Decidable (s.SoundCalls calls)
  | [] => inferInstanceAs (Decidable True)
  | c :: calls =>
      haveI := decidableSoundCalls (s.call c).2 calls
      inferInstanceAs (Decidable (_ ∧ _))

theorem Refines.call (h : Refines b u) {c : FileStreamCall} (hsound : b.Sound c) :
    (b.call c).1 = (u.call c).1 ∧ Refines (b.call c).2 (u.call c).2 := by
  cases c with
  | read length =>
      obtain ⟨hresult, hrefines⟩ := h.phReadFileStream hsound
      exact ⟨congrArg FileStreamAnswer.read hresult, hrefines⟩
  | write data =>
      obtain ⟨hresult, hrefines⟩ := h.phWriteFileStream hsound
      exact ⟨congrArg FileStreamAnswer.done hresult, hrefines⟩
  | seek offset origin =>
      obtain ⟨hresult, hrefines⟩ := h.phSeekFileStream hsound
      exact ⟨congrArg FileStreamAnswer.done hresult, hrefines⟩
  | flush =>
      obtain ⟨b', hflush, hrefines, hcontent⟩ := h.phFlushFileStream hsound
      have hplain := h.plain.phFlushFileStream
      show FileStreamAnswer.flushed _ _ = FileStreamAnswer.flushed _ _ ∧
        Refines b.phFlushFileStream.2 u.phFlushFileStream.2
      rw [hflush, hplain]
      exact ⟨congrArg (FileStreamAnswer.flushed _) hcontent, hrefines⟩
  | getPosition =>
      exact ⟨congrArg FileStreamAnswer.position (h.phGetPositionFileStream hsound), h⟩

theorem Refines.answers (h : Refines b u) {calls : List FileStreamCall}
    (hsound : b.SoundCalls calls) : b.answers calls = u.answers calls := by
  induction calls generalizing b u with
  | nil => rfl
  | cons c calls ih =>
      obtain ⟨hanswer, hrefines⟩ := h.call hsound.1
      exact congrArg₂ List.cons hanswer (ih hrefines hsound.2)

theorem refines_phCreateFileStream2 {content : List UInt8} {ownPosition : Bool} {bufferLength : Nat}
    (hpos : 0 < bufferLength) (hlt : bufferLength < 2 ^ 32) (hsize : content.length < 2 ^ 63) :
    Refines (phCreateFileStream2 ⟨content, 0⟩ false ownPosition bufferLength)
      (phCreateFileStream2 ⟨content, 0⟩ true ownPosition bufferLength) := by
  have haligned : ∀ unbuffered,
      Aligned (phCreateFileStream2 ⟨content, 0⟩ unbuffered ownPosition bufferLength) :=
    fun _ => ite_self _
  refine .of_empty ⟨rfl, hpos, hlt, haligned false, Nat.le_refl _, Nat.zero_le _, Nat.zero_le _,
    fun hne => absurd rfl hne, fun _ hsome => (by cases hsome), fun hne => ?_⟩
    ⟨rfl, haligned true, ⟨rfl, rfl, rfl⟩, (show (0 : LargeInteger).toNat < 2 ^ 63 by decide), hsize⟩ ⟨rfl, rfl⟩ rfl rfl
  rcases hne with hne | hne
  · exact absurd rfl hne
  · exact absurd rfl hne

/-- A buffered stream answers every sequence of sound calls as an unbuffered one does. -/
theorem phFileStream_refines {content : List UInt8} {ownPosition : Bool} {bufferLength : Nat}
    {calls : List FileStreamCall} (hpos : 0 < bufferLength) (hlt : bufferLength < 2 ^ 32)
    (hsize : content.length < 2 ^ 63)
    (hsound : (phCreateFileStream2 ⟨content, 0⟩ false ownPosition bufferLength).SoundCalls calls) :
    (phCreateFileStream2 ⟨content, 0⟩ false ownPosition bufferLength).answers calls =
      (phCreateFileStream2 ⟨content, 0⟩ true ownPosition bufferLength).answers calls :=
  (refines_phCreateFileStream2 hpos hlt hsize).answers hsound

/-! ## Calls that are answered alike, and calls that are not -/

/-- A stream over four bytes with a buffer of two. -/
def smallStream (unbuffered : Bool) : PhFileStream :=
  phCreateFileStream2 ⟨[1, 2, 3, 4], 0⟩ unbuffered false 2

theorem phFileStream_refines_small :
    (smallStream false).answers [.read 1, .seek 1 .seekCurrent, .write [7], .flush, .getPosition] =
      (smallStream true).answers
        [.read 1, .seek 1 .seekCurrent, .write [7], .flush, .getPosition] := by
  exact phFileStream_refines (by decide) (by decide) (by decide) (by decide +kernel)

/-- The position is wrong while something that was read ahead is left; a read from a full buffer
fails at the end of the file; and a seek does not drop what a read of nothing has read ahead. -/
theorem phFileStream_differs :
    (smallStream false).answers [.read 1, .getPosition] ≠
        (smallStream true).answers [.read 1, .getPosition] ∧
      (smallStream false).answers [.seek 2 .seekStart, .read 1, .read 2] ≠
        (smallStream true).answers [.seek 2 .seekStart, .read 1, .read 2] ∧
      (smallStream false).answers [.read 0, .seek 2 .seekStart, .read 1] ≠
        (smallStream true).answers [.read 0, .seek 2 .seekStart, .read 1] := by
  decide +kernel

end PhFileStream

end SystemInformer.PhLib
