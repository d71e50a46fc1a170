import SystemInformer.PhLib.DateTime

/-!
# When the time and the date stay in their buffer

The two texts and the space take as many bytes as the function says in the end. The check asks for
three bytes more, and the last terminator is stored twice as far away.
-/

namespace SystemInformer.PhLib

variable {time date : LocaleText} {bufferLength : ULongPtr}

/-- The bytes of the two texts, the space between them and a terminator. -/
def dateTimeLength (time date : LocaleText) : Nat :=
  2 * (time.chars.length + 1 + date.chars.length + 1)

/-- Nothing is stored behind the buffer, the function succeeds exactly if the text fits, and the
text and its length are right if it succeeds. -/
structure DateTimeMeets (time date : LocaleText) (bufferLength : ULongPtr) : Prop where
  within : ∀ store ∈ (phFormatDateTimeToBuffer time date bufferLength).stores,
    2 * store.1 + 2 ≤ bufferLength.toNat
  fits : (phFormatDateTimeToBuffer time date bufferLength).result = true ↔
    dateTimeLength time date ≤ bufferLength.toNat
  text : (phFormatDateTimeToBuffer time date bufferLength).result = true → ∀ buffer : Nat → WChar,
    (List.range (time.chars.length + 1 + date.chars.length + 1)).map
      (storeAll (phFormatDateTimeToBuffer time date bufferLength).stores buffer) =
        time.chars ++ [0x20] ++ date.chars ++ [0]
  returnLength : (phFormatDateTimeToBuffer time date bufferLength).result = true →
    (phFormatDateTimeToBuffer time date bufferLength).returnLength.toNat = dateTimeLength time date

theorem LocaleText.toNat_size (text : LocaleText) : text.size.toNat = text.chars.length + 1 := by
  have hlt := text.length_lt
  rw [size, BitVec.toNat_ofNat, Nat.mod_eq_of_lt (by omega)]

theorem LocaleText.toNat_size_sub_one (text : LocaleText) :
    (text.size - 1).toNat = text.chars.length := by
  have hsize := text.toNat_size
  have hlt := text.length_lt
  have hone : (1 : BitVec 32).toNat = 1 := rfl
  rw [BitVec.toNat_sub, hsize, hone]
  omega

/-- What is compared with the length of the buffer, before the sum no longer is a `LONG`, and
after. -/
theorem toNat_returnLength (time date : LocaleText) :
    ((time.size + 1 + date.size).signExtend 64 * 2 : ULongPtr).toNat =
      if time.chars.length + date.chars.length + 3 < 2 ^ 31 then
        2 * (time.chars.length + date.chars.length + 3)
      else 2 ^ 64 - 2 * (2 ^ 32 - (time.chars.length + date.chars.length + 3)) := by
  have htime := time.length_lt
  have hdate := date.length_lt
  have hone : (1 : BitVec 32).toNat = 1 := rfl
  have htwo : (2 : ULongPtr).toNat = 2 := rfl
  have hsum : (time.size + 1 + date.size).toNat = time.chars.length + date.chars.length + 3 := by
    rw [BitVec.toNat_add, BitVec.toNat_add, time.toNat_size, date.toNat_size, hone]
    omega
  rw [BitVec.toNat_mul, BitVec.toNat_signExtend, BitVec.toNat_setWidth, hsum,
    BitVec.msb_eq_decide, hsum, htwo]
  split
  · next h =>
      rw [decide_eq_true_iff] at h
      rw [if_neg (Nat.not_lt.mpr h)]
      omega
  · next h =>
      rw [decide_eq_true_iff] at h
      rw [if_pos (Nat.not_le.mp h)]
      omega

/-! ## The stores -/

theorem storeAll_append (a b : List (Nat × WChar)) (buffer : Nat → WChar) :
    storeAll (a ++ b) buffer = storeAll b (storeAll a buffer) := List.foldl_append ..

theorem map_storeAll_storesFrom (chars : List WChar) (index : Nat) (buffer : Nat → WChar) :
    (List.range (index + chars.length)).map (storeAll (storesFrom index chars) buffer) =
      (List.range index).map buffer ++ chars := by
  induction chars generalizing index buffer with
  | nil => simp [storesFrom, storeAll]
  | cons c chars ih =>
      have hnext := ih (index + 1) (Function.update buffer index c)
      have hlength : index + (c :: chars).length = index + 1 + chars.length := by
        rw [List.length_cons]
        omega
      have hbefore : (List.range index).map (Function.update buffer index c) =
          (List.range index).map buffer := by
        refine List.map_congr_left fun i hi => Function.update_of_ne ?_ ..
        exact (List.mem_range.mp hi).ne
      rw [List.range_succ, List.map_append, hbefore, List.map_singleton, Function.update_self,
        List.append_assoc, List.singleton_append] at hnext
      rw [hlength]
      exact hnext

theorem mem_storesFrom {chars : List WChar} {index : Nat} {store : Nat × WChar}
    (h : store ∈ storesFrom index chars) : store.1 < index + chars.length := by
  induction chars generalizing index with
  | nil => cases h
  | cons c chars ih =>
      rw [List.length_cons]
      rcases List.mem_cons.mp h with rfl | h
      · show index < _
        omega
      · have hlt := ih h
        omega

theorem map_storeAll_behind {length index : Nat} (h : length ≤ index) (c : WChar)
    (buffer : Nat → WChar) :
    (List.range length).map (storeAll [(index, c)] buffer) = (List.range length).map buffer := by
  refine List.map_congr_left fun i hi => Function.update_of_ne ?_ ..
  exact ((List.mem_range.mp hi).trans_le h).ne

theorem map_storeAll_dateTime {index : Nat}
    (hindex : time.chars.length + 1 + date.chars.length + 1 ≤ index) (buffer : Nat → WChar) :
    (List.range (time.chars.length + 1 + date.chars.length + 1)).map
      (storeAll (storesFrom 0 (time.chars ++ [0]) ++ [(time.chars.length, 0x20)] ++
        storesFrom (time.chars.length + 1) (date.chars ++ [0]) ++ [(index, 0)]) buffer) =
      time.chars ++ [0x20] ++ date.chars ++ [0] := by
  have htime := map_storeAll_storesFrom (time.chars ++ [0]) 0 buffer
  rw [Nat.zero_add, List.length_append, List.length_singleton, List.range_succ, List.map_append,
    List.range_zero, List.map_nil, List.nil_append] at htime
  have hfirst := (List.append_inj htime (by rw [List.length_map, List.length_range])).1
  have hspace : (List.range (time.chars.length + 1)).map (storeAll [(time.chars.length, 0x20)]
      (storeAll (storesFrom 0 (time.chars ++ [0])) buffer)) = time.chars ++ [0x20] := by
    rw [List.range_succ, List.map_append, map_storeAll_behind (Nat.le_refl _), hfirst]
    simp [storeAll]
  have hdate := map_storeAll_storesFrom (date.chars ++ [0]) (time.chars.length + 1)
    (storeAll [(time.chars.length, 0x20)] (storeAll (storesFrom 0 (time.chars ++ [0])) buffer))
  rw [List.length_append, List.length_singleton, ← Nat.add_assoc, hspace] at hdate
  rw [storeAll_append, map_storeAll_behind hindex, storeAll_append, storeAll_append, hdate]
  simp

theorem phFormatDateTimeToBuffer_stores (time date : LocaleText) (bufferLength : ULongPtr)
    {index : Nat} (hindex : ((time.size + 1 + date.size).signExtend 64 * 2 : ULongPtr).toNat = index) :
    (phFormatDateTimeToBuffer time date bufferLength).stores =
      if bufferLength.toNat ≤ index then []
      else storesFrom 0 (time.chars ++ [0]) ++ [(time.chars.length, 0x20)] ++
        storesFrom (time.chars.length + 1) (date.chars ++ [0]) ++ [(index, 0)] := by
  rw [phFormatDateTimeToBuffer, time.toNat_size, time.toNat_size_sub_one]
  simp only [BitVec.le_def, hindex]
  split
  · rfl
  · rfl

theorem phFormatDateTimeToBuffer_result (time date : LocaleText) (bufferLength : ULongPtr)
    {index : Nat} (hindex : ((time.size + 1 + date.size).signExtend 64 * 2 : ULongPtr).toNat = index) :
    (phFormatDateTimeToBuffer time date bufferLength).result = true ↔
      index < bufferLength.toNat := by
  rw [phFormatDateTimeToBuffer]
  simp only [BitVec.le_def, hindex]
  split
  · next h => exact iff_of_false Bool.false_ne_true (Nat.not_lt.mpr h)
  · next h => exact iff_of_true rfl (Nat.not_le.mp h)

/-- The function does what it should exactly if the text does not fit, or the buffer is so much
larger that the second terminator is in it too. -/
theorem phFormatDateTimeToBuffer_meets_iff (time date : LocaleText) (bufferLength : ULongPtr) :
    DateTimeMeets time date bufferLength ↔
      bufferLength.toNat < dateTimeLength time date ∨
        time.chars.length + date.chars.length + 3 < 2 ^ 31 ∧
          4 * (time.chars.length + date.chars.length + 3) + 2 ≤ bufferLength.toNat := by
  have htime := time.length_lt
  have hdate := date.length_lt
  have hbuffer := bufferLength.isLt
  have hindex := toNat_returnLength time date
  have hresult := phFormatDateTimeToBuffer_result time date bufferLength hindex
  have hstores := phFormatDateTimeToBuffer_stores time date bufferLength hindex
  rw [dateTimeLength]
  constructor
  · intro h
    have hfits := h.fits
    rw [dateTimeLength, hresult] at hfits
    by_cases hlong : bufferLength.toNat < 2 * (time.chars.length + 1 + date.chars.length + 1)
    · exact .inl hlong
    -- The text fits, so the function has stored the second terminator too.
    have hsucceeds := hfits.mpr (Nat.not_lt.mp hlong)
    have hlast := h.within
    rw [hstores, if_neg (Nat.not_le.mpr hsucceeds)] at hlast
    have hterminator := hlast _ (List.mem_append_right _ List.mem_cons_self)
    dsimp only at hterminator
    split at hterminator
    · next hshort => exact .inr ⟨hshort, by omega⟩
    · omega
  · intro h
    rcases h with hlong | ⟨hshort, hlarge⟩
    · have hfails : ¬ (phFormatDateTimeToBuffer time date bufferLength).result = true := by
        rw [hresult]
        split
        · omega
        · omega
      have hnothing : (phFormatDateTimeToBuffer time date bufferLength).stores = [] := by
        rw [hresult] at hfails
        rw [hstores, if_pos (Nat.not_lt.mp hfails)]
      refine ⟨fun store hmem => ?_, iff_of_false hfails ?_, fun hno => absurd hno hfails,
        fun hno => absurd hno hfails⟩
      · rw [hnothing] at hmem
        cases hmem
      · rw [dateTimeLength]
        omega
    · rw [if_pos hshort] at hindex hresult hstores
      rw [if_neg (by omega)] at hstores
      refine ⟨fun store hmem => ?_, ?_, fun _ buffer => ?_, fun _ => ?_⟩
      · rw [hstores] at hmem
        simp only [List.mem_append, List.mem_singleton] at hmem
        rcases hmem with ((hmem | rfl) | hmem) | rfl
        · have hlt := mem_storesFrom hmem
          rw [List.length_append, List.length_singleton] at hlt
          omega
        · dsimp only
          omega
        · have hlt := mem_storesFrom hmem
          rw [List.length_append, List.length_singleton] at hlt
          omega
        · dsimp only
          omega
      · rw [hresult, dateTimeLength]
        exact iff_of_true (by omega) (by omega)
      · rw [hstores]
        exact map_storeAll_dateTime (by omega) buffer
      · have hlength : (phFormatDateTimeToBuffer time date bufferLength).returnLength =
            (time.size + 1 + date.size).signExtend 64 * 2 - 2 := by
          rw [phFormatDateTimeToBuffer]
          simp only [BitVec.le_def, hindex]
          rw [if_neg (by omega)]
        have htwo : (2 : ULongPtr).toNat = 2 := rfl
        rw [hlength, BitVec.toNat_sub, hindex, htwo, dateTimeLength]
        omega

/-- The time is `1`, the date `2`, and the buffer has 16 bytes. -/
theorem phFormatDateTimeToBuffer_overruns :
    ¬ DateTimeMeets ⟨[0x31], by decide, by decide⟩ ⟨[0x32], by decide, by decide⟩ 16 := by
  intro h
  have hstore := h.within (10, 0) (by decide +kernel)
  exact absurd hstore (by decide)

end SystemInformer.PhLib
