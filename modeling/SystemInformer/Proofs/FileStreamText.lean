import SystemInformer.Lib.Utf16
import SystemInformer.PhLib.FileStreamText

/-!
# Text in blocks and text as a whole

Every block has room for its bytes, three for a unit at most, so a call whose writes succeed has
written all the blocks, each as the system converts it alone. What that is the library tells: the
bytes of the whole text, unless a block ends between the two units of a character.
-/

namespace SystemInformer.PhLib

open Utf16

variable {σ : Type*} {rtlUnicodeToUTF8N : List WChar → List UInt8}
  {phWriteFileStream : σ → List UInt8 → Except NtStatus Unit × σ} {inPlaceUtf8 : Bool}

def recorded (phWriteFileStream : σ → List UInt8 → Except NtStatus Unit × σ)
    (s : σ × List UInt8) (data : List UInt8) : Except NtStatus Unit × (σ × List UInt8) :=
  match phWriteFileStream s.1 data with
  | (.error status, fileStream) => (.error status, (fileStream, s.2))
  | (.ok (), fileStream) => (.ok (), (fileStream, s.2 ++ data))

theorem convertBlock_take (hrtl : ∀ units, rtlUnicodeToUTF8N units = utf8 (decode units))
    (buffer : List WChar) :
    convertBlock rtlUnicodeToUTF8N inPlaceUtf8 (buffer.take (pageSize / 2)) =
      some (utf8 (decode (buffer.take (pageSize / 2)))) := by
  have hroom := length_utf8_decode (buffer.take (pageSize / 2))
  have htake := List.length_take_le (pageSize / 2) buffer
  rw [convertBlock]
  split
  · rw [phConvertUtf16ToUtf8Buffer, hrtl, if_pos (by simp only [pageSize] at *; omega)]
  · rw [phConvertUtf16ToUtf8Ex, phConvertUtf16ToUtf8Buffer, if_pos (Nat.le_refl _), hrtl]

theorem writeBlocks_of_ne (hrtl : ∀ units, rtlUnicodeToUTF8N units = utf8 (decode units))
    {s : σ} {buffer : List WChar} (h : buffer ≠ []) :
    writeBlocks rtlUnicodeToUTF8N phWriteFileStream inPlaceUtf8 s buffer =
      match phWriteFileStream s (utf8 (decode (buffer.take (pageSize / 2)))) with
      | (.error status, s) => (.error status, s)
      | (.ok (), s) => writeBlocks rtlUnicodeToUTF8N phWriteFileStream inPlaceUtf8 s
          (buffer.drop (pageSize / 2)) := by
  rw [writeBlocks, dif_neg h, convertBlock_take hrtl] <;> rfl

theorem writeBlocks_recorded (hrtl : ∀ units, rtlUnicodeToUTF8N units = utf8 (decode units))
    {s s' : σ} (log : List UInt8) {buffer : List WChar}
    (h : writeBlocks rtlUnicodeToUTF8N phWriteFileStream inPlaceUtf8 s buffer = (.ok (), s')) :
    writeBlocks rtlUnicodeToUTF8N (recorded phWriteFileStream) inPlaceUtf8 (s, log) buffer =
      (.ok (), (s', log ++ utf8 (decodeBlocks (pageSize / 2) buffer))) := by
  induction hlength : buffer.length using Nat.strong_induction_on generalizing s log buffer with
  | _ l ih =>
      by_cases hne : buffer = []
      · subst hne
        rw [writeBlocks, dif_pos rfl] at h
        obtain ⟨-, rfl⟩ := Prod.mk.inj h
        rw [writeBlocks, dif_pos rfl, decodeBlocks_nil, utf8_nil, List.append_nil]
      · have hpos := List.length_pos_iff.mpr hne
        rw [writeBlocks_of_ne hrtl hne] at h ⊢
        rw [decodeBlocks_of_ne (by decide) hne, utf8_append, ← List.append_assoc, recorded]
        dsimp only
        split at h
        · next hwrite => simp at h
        · next s₁ hwrite =>
            exact ih _ (by rw [List.length_drop, pageSize]; omega) _ h rfl

/-- A text is written as UTF-8 exactly if no block ends between the two units of a character. -/
theorem phWriteStringAsUtf8FileStreamEx_appends
    (hrtl : ∀ units, rtlUnicodeToUTF8N units = utf8 (decode units))
    {hasPage : Bool} {fileStream fileStream' : PhFileStream} {text : List Char}
    (hok : phWriteStringAsUtf8FileStreamEx rtlUnicodeToUTF8N PhFileStream.phWriteFileStream hasPage
      fileStream (encode text) = (.ok (), fileStream')) :
    ∃ appended,
      phWriteStringAsUtf8FileStreamEx rtlUnicodeToUTF8N (recorded PhFileStream.phWriteFileStream)
        hasPage (fileStream, []) (encode text) = (.ok (), (fileStream', appended)) ∧
      (appended = utf8 text ↔ ∀ k, ¬ CutsPair text (pageSize / 2 * k)) := by
  refine ⟨_, writeBlocks_recorded hrtl [] hok, ?_⟩
  have hiff := utf8_decodeBlocks_iff (n := pageSize / 2) (by decide) (encode text)
  rw [decode_encode] at hiff
  rw [List.nil_append, hiff, KeepsPairs]
  simp only [splits_encode_iff]

theorem phWriteStringAsUtf8FileStreamEx_appends_letter :
    ∃ fileStream appended,
      phWriteStringAsUtf8FileStreamEx (fun units => utf8 (decode units))
        (recorded PhFileStream.phWriteFileStream) true
        (PhFileStream.phCreateFileStream2 ⟨[], 0⟩ true true 0, []) (encode ['a']) =
          (.ok (), (fileStream, appended)) ∧
      (appended = utf8 ['a'] ↔ ∀ k, ¬ CutsPair ['a'] (pageSize / 2 * k)) := by
  refine ⟨{ PhFileStream.phCreateFileStream2 ⟨[97], 1⟩ true true 0 with position := 1 },
    phWriteStringAsUtf8FileStreamEx_appends (fun _ => rfl) ?_⟩
  rw [phWriteStringAsUtf8FileStreamEx, writeBlocks_of_ne (fun _ => rfl) (by decide),
    show (encode ['a']).drop (pageSize / 2) = [] from rfl]
  show writeBlocks _ _ _ _ [] = _
  rw [writeBlocks, dif_pos rfl]
  rfl

/-- 2047 letters and a character of two units. -/
def cutText : List Char := List.replicate 2047 'a' ++ [Char.ofNat 0x10000]

theorem phWriteFileStream_unbuffered (s : PhFileStream) (data : List UInt8)
    (hunbuffered : s.unbuffered = true) (hown : s.ownPosition = true)
    (hposition : s.position.msb = false) :
    ∃ fileHandle, s.phWriteFileStream data =
      (.ok (), { s with
        fileHandle := fileHandle, position := s.position + BitVec.ofNat 64 data.length }) := by
  rw [PhFileStream.phWriteFileStream, if_pos hunbuffered, PhFileStream.phpWriteFileStream,
    ntWriteFile, PhFileStream.byteOffset, if_pos hown, hposition]
  exact ⟨_, rfl⟩

theorem phWriteStringAsUtf8FileStreamEx_cuts :
    ∃ fileStream appended,
      phWriteStringAsUtf8FileStreamEx (fun units => utf8 (decode units))
        (recorded PhFileStream.phWriteFileStream) true
        (PhFileStream.phCreateFileStream2 ⟨[], 0⟩ true true 0, []) (encode cutText) =
          (.ok (), (fileStream, appended)) ∧
      appended ≠ utf8 cutText := by
  have hok : ∃ fileStream, phWriteStringAsUtf8FileStreamEx (fun units => utf8 (decode units))
      PhFileStream.phWriteFileStream true
      (PhFileStream.phCreateFileStream2 ⟨[], 0⟩ true true 0) (encode cutText) =
        (.ok (), fileStream) := by
    have hfirst : (utf8 (decode ((encode cutText).take (pageSize / 2)))).length = 2050 := by
      decide +kernel
    obtain ⟨fileHandle, hwrite⟩ := phWriteFileStream_unbuffered
      (PhFileStream.phCreateFileStream2 ⟨[], 0⟩ true true 0)
      (utf8 (decode ((encode cutText).take (pageSize / 2)))) rfl rfl rfl
    rw [hfirst] at hwrite
    obtain ⟨fileHandle', hwrite'⟩ := phWriteFileStream_unbuffered
      { PhFileStream.phCreateFileStream2 ⟨[], 0⟩ true true 0 with
        fileHandle := fileHandle, position := BitVec.ofNat 64 2050 }
      (utf8 (decode (((encode cutText).drop (pageSize / 2)).take (pageSize / 2)))) rfl rfl
      (show (BitVec.ofNat 64 2050).msb = false by decide)
    have hend : ((encode cutText).drop (pageSize / 2)).drop (pageSize / 2) = [] := by
      decide +kernel
    rw [phWriteStringAsUtf8FileStreamEx, writeBlocks_of_ne (fun _ => rfl) (by decide +kernel),
      hwrite]
    dsimp only
    rw [writeBlocks_of_ne (fun _ => rfl) (by decide +kernel)]
    erw [hwrite']
    dsimp only
    rw [hend, writeBlocks, dif_pos rfl]
    exact ⟨_, rfl⟩
  obtain ⟨fileStream, hok⟩ := hok
  refine ⟨fileStream, _, writeBlocks_recorded (fun _ => rfl) [] hok, ?_⟩
  have hiff := utf8_decodeBlocks_iff (by decide) (encode cutText) (n := pageSize / 2)
  rw [decode_encode] at hiff
  rw [List.nil_append, Ne, hiff]
  intro hkeeps
  refine hkeeps 1 (splits_encode_iff.mpr ⟨List.replicate 2047 'a', _, [], rfl, ?_, ?_⟩)
  · decide
  · decide +kernel

end SystemInformer.PhLib
