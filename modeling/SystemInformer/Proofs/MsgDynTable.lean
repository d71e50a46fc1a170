import SystemInformer.KphLib.MsgDyn

/-!
# What a claim and a lookup do to the dynamic table

Everything the message theorems need about `kphmsgdyn.c` is said here once.
The scan is characterised by the first index that carries the field; a claim
either goes through, under the one condition `dynAccepts`, or answers an error
and stores nothing; and the memory after an accepted add differs from the one
before in four places only: the count byte, the size word, the new entry's
slot, and the bytes the copy covers.

The copy starts at the old `Header.Size`, which `KphMsgValidate` keeps at 356
or above, so it never reaches back into the table, however long it is.
-/

namespace SystemInformer.KphLib

open Bytes

/-! ## The scan -/

variable {m : Mem} {f : UInt32}

theorem findLoop_some_iff {i n j : Nat} :
    (kphpMsgDynFindLoop m f i n).1 = some j ↔
      (i ≤ j ∧ j < i + n ∧ entryFieldId m j = f.toNat ∧
        ∀ k, i ≤ k → k < j → entryFieldId m k ≠ f.toNat) := by
  induction n generalizing i with
  | zero =>
      simp only [kphpMsgDynFindLoop, reduceCtorEq, false_iff]
      rintro ⟨h₁, h₂, -⟩
      omega
  | succ n ih =>
      rw [kphpMsgDynFindLoop]
      split
      · next heq =>
          simp only [Option.some.injEq]
          constructor
          · rintro rfl
            exact ⟨Nat.le_refl _, by omega, heq, fun k h₁ h₂ => by omega⟩
          · rintro ⟨h₁, -, -, hmin⟩
            rcases Nat.lt_or_ge i j with hlt | hge
            · exact absurd heq (hmin i (Nat.le_refl _) hlt)
            · omega
      · next hne =>
          simp only [ih]
          constructor
          · rintro ⟨h₁, h₂, hj, hmin⟩
            refine ⟨by omega, by omega, hj, fun k hk₁ hk₂ => ?_⟩
            rcases Nat.eq_or_lt_of_le hk₁ with rfl | hlt
            · exact hne
            · exact hmin k hlt hk₂
          · rintro ⟨h₁, h₂, hj, hmin⟩
            rcases Nat.eq_or_lt_of_le h₁ with rfl | hlt
            · exact absurd hj hne
            · exact ⟨hlt, by omega, hj, fun k hk₁ hk₂ => hmin k (by omega) hk₂⟩

theorem findLoop_none_iff {i n : Nat} :
    (kphpMsgDynFindLoop m f i n).1 = none ↔
      ∀ k, i ≤ k → k < i + n → entryFieldId m k ≠ f.toNat := by
  induction n generalizing i with
  | zero => simp only [kphpMsgDynFindLoop, true_iff]; intro k h₁ h₂; omega
  | succ n ih =>
      rw [kphpMsgDynFindLoop]
      split
      · next heq =>
          simp only [reduceCtorEq, false_iff]
          intro h
          exact h i (Nat.le_refl _) (by omega) heq
      · next hne =>
          simp only [ih]
          constructor
          · intro h k hk₁ hk₂
            rcases Nat.eq_or_lt_of_le hk₁ with rfl | hlt
            · exact hne
            · exact h k hlt (by omega)
          · intro h k hk₁ hk₂
            exact h k (by omega) (by omega)

theorem mem_findLoop_inspected {i n k : Nat} :
    k ∈ (kphpMsgDynFindLoop m f i n).2 ↔
      (i ≤ k ∧ k < i + n ∧ ∀ j, i ≤ j → j < k → entryFieldId m j ≠ f.toNat) := by
  induction n generalizing i with
  | zero =>
      simp only [kphpMsgDynFindLoop, List.not_mem_nil, false_iff]
      rintro ⟨h₁, h₂, -⟩
      omega
  | succ n ih =>
      rw [kphpMsgDynFindLoop]
      split
      · next heq =>
          simp only [List.mem_singleton]
          constructor
          · rintro rfl
            exact ⟨Nat.le_refl _, by omega, fun j h₁ h₂ => by omega⟩
          · rintro ⟨h₁, -, hmin⟩
            rcases Nat.lt_or_ge i k with hlt | hge
            · exact absurd heq (hmin i (Nat.le_refl _) hlt)
            · omega
      · next hne =>
          simp only [List.mem_cons, ih]
          constructor
          · rintro (rfl | ⟨h₁, h₂, hmin⟩)
            · exact ⟨Nat.le_refl _, by omega, fun j h₁ h₂ => by omega⟩
            · refine ⟨by omega, by omega, fun j hj₁ hj₂ => ?_⟩
              rcases Nat.eq_or_lt_of_le hj₁ with rfl | hlt
              · exact hne
              · exact hmin j hlt hj₂
          · rintro ⟨h₁, h₂, hmin⟩
            rcases Nat.eq_or_lt_of_le h₁ with rfl | hlt
            · exact Or.inl rfl
            · exact Or.inr ⟨hlt, by omega, fun j hj₁ hj₂ => hmin j (by omega) hj₂⟩

theorem findEntry_some_iff {j : Nat} :
    (kphpMsgDynFindEntry m f).1 = some j ↔
      (j < dynCount m ∧ entryFieldId m j = f.toNat ∧
        ∀ k < j, entryFieldId m k ≠ f.toNat) := by
  simp [kphpMsgDynFindEntry, findLoop_some_iff]

theorem findEntry_none_iff :
    (kphpMsgDynFindEntry m f).1 = none ↔
      ∀ k < dynCount m, entryFieldId m k ≠ f.toNat := by
  simp [kphpMsgDynFindEntry, findLoop_none_iff]

theorem mem_findEntry_inspected {k : Nat} :
    k ∈ (kphpMsgDynFindEntry m f).2 ↔
      (k < dynCount m ∧ ∀ j < k, entryFieldId m j ≠ f.toNat) := by
  simp [kphpMsgDynFindEntry, mem_findLoop_inspected]

/-! ## Validation -/

theorem ntSuccess_validate_iff :
    ntSuccess (kphMsgValidate m) = true ↔ kphMsgValidate m = statusSuccess := by
  unfold kphMsgValidate
  repeat' split
  all_goals decide

theorem validate_eq_success_iff :
    kphMsgValidate m = statusSuccess ↔
      (headerVersion m = messageVersion ∧
        (messageMinSize ≤ headerSize m ∧ headerSize m ≤ sizeofMessage) ∧
        (headerMessageId m = kphMsgUnhandled ∨
          (invalidKphMsg < headerMessageId m ∧ headerMessageId m < maxKphMsg))) := by
  have hne₁ : statusRevisionMismatch ≠ statusSuccess := by decide
  have hne₂ : statusInvalidMessage ≠ statusSuccess := by decide
  unfold kphMsgValidate
  split
  · next h => exact ⟨fun h' => absurd h' hne₁, fun h' => absurd h'.1 h⟩
  · next hv =>
      split
      · next h => exact ⟨fun h' => absurd h' hne₂, fun h' => by omega⟩
      · next hs =>
          split
          · next h =>
              exact ⟨fun h' => absurd h' hne₂, fun h' => by
                rcases h'.2.2 with h'' | h''
                · exact absurd h'' h.1
                · omega⟩
          · next h =>
              refine ⟨fun _ => ⟨by simpa using hv, by omega, ?_⟩, fun _ => rfl⟩
              by_cases hu : headerMessageId m = kphMsgUnhandled
              · exact Or.inl hu
              · exact Or.inr (by
                  have : ¬ (headerMessageId m ≤ invalidKphMsg ∨
                      headerMessageId m ≥ maxKphMsg) := fun hb => h ⟨hu, hb⟩
                  omega)

theorem validate_size (h : kphMsgValidate m = statusSuccess) :
    356 ≤ headerSize m ∧ headerSize m ≤ 4096 := (validate_eq_success_iff.mp h).2.1

theorem header_congr {m m' : Mem} (h : ∀ i, i < 8 → m i = m' i) :
    headerSize m = headerSize m' ∧ headerMessageId m = headerMessageId m' ∧
      kphMsgValidate m = kphMsgValidate m' := by
  have hversion : headerVersion m = headerVersion m' := field_congr fun x _ hx => h x (by omega)
  have hsize : headerSize m = headerSize m' := field_congr fun x _ hx => h x (by omega)
  have hid : headerMessageId m = headerMessageId m' := field_congr fun x _ hx => h x (by omega)
  refine ⟨hsize, hid, ?_⟩
  rw [kphMsgValidate, kphMsgValidate, hversion, hsize, hid]

theorem kphMsgInit_header (m : Mem) (messageId : UInt32) (timeStamp : UInt64) :
    headerVersion (applyLog m (kphMsgInit messageId timeStamp)) = messageVersion ∧
      headerSize (applyLog m (kphMsgInit messageId timeStamp)) = messageMinSize ∧
      headerMessageId (applyLog m (kphMsgInit messageId timeStamp)) = messageId.toNat := by
  have hid : messageId.toNat < 2 ^ 32 := messageId.toNat_lt
  refine ⟨?_, ?_, ?_⟩
  · simp only [kphMsgInit, applyLog, headerVersion]
    simp (disch := simp only [Store.field, length_leEncode]; omega) only
      [Store.field_apply_disjoint, Store.field_apply_same]
    rfl
  · simp only [kphMsgInit, applyLog, headerSize]
    simp (disch := simp only [Store.field, length_leEncode]; omega) only
      [Store.field_apply_disjoint, Store.field_apply_same]
    rfl
  · simp only [kphMsgInit, applyLog, headerMessageId]
    simp (disch := simp only [Store.field, length_leEncode]; omega) only
      [Store.field_apply_disjoint, Store.field_apply_same]
    omega

/-! ## Claiming -/

/-- The condition under which an add of `length` bytes goes through: a field
id in range and not in the table yet, a free table slot, and room up to the
end of the message. -/
def dynAccepts (m : Mem) (fieldId : UInt32) (length : Nat) : Prop :=
  (invalidKphMsgField < fieldId.toNat ∧ fieldId.toNat < maxKphMsgField) ∧
  kphMsgValidate m = statusSuccess ∧ dynCount m < dynEntriesMax ∧
  (kphpMsgDynFindEntry m fieldId).1 = none ∧
  headerSize m + length ≤ sizeofMessage

instance (m : Mem) (fieldId : UInt32) (length : Nat) :
    Decidable (dynAccepts m fieldId length) := inferInstanceAs (Decidable (_ ∧ _))

theorem claim_of_accepts {typeId length : Nat}
    (ht : invalidKphMsgType < typeId ∧ typeId < maxKphMsgType)
    (h : dynAccepts m f length) :
    kphpMsgDynClaimEntry m f typeId length =
      ⟨statusSuccess, some (dynCount m), dynClaimLog m f typeId length⟩ := by
  obtain ⟨hf, hv, hc, hn, hr⟩ := h
  have hsize := (validate_eq_success_iff.mp hv).2.1
  simp only [sizeofMessage, messageMinSize] at hr hsize
  have hok : ntSuccess (kphMsgValidate m) = true := ntSuccess_validate_iff.mpr hv
  rw [kphpMsgDynClaimEntry, if_neg (by omega), if_neg (by omega), if_neg (by simp [hok]),
    if_neg (by omega), if_neg (by simp [hn]),
    rtlUShortAdd_eq (by omega) (by omega), if_pos (by omega)]
  exact if_neg (by simp only [sizeofMessage]; omega)

theorem claim_of_not_accepts {typeId length : Nat}
    (hl : length < 2 ^ 16) (ht : invalidKphMsgType < typeId ∧ typeId < maxKphMsgType)
    (h : ¬ dynAccepts m f length) :
    ∃ status, ntSuccess status = false ∧
      kphpMsgDynClaimEntry m f typeId length = ⟨status, none, []⟩ := by
  have hsz : headerSize m < 2 ^ 16 := field_lt m 2 2
  unfold kphpMsgDynClaimEntry
  split
  · exact ⟨_, by decide, rfl⟩
  · next hf =>
      rw [if_neg (by omega)]
      split
      · next hv => exact ⟨_, hv, rfl⟩
      · next hv =>
          have hv' := ntSuccess_validate_iff.mp (by simpa using hv)
          split
          · exact ⟨_, by decide, rfl⟩
          · next hc =>
              split
              · exact ⟨_, by decide, rfl⟩
              · next hn =>
                  rw [rtlUShortAdd_eq hsz hl]
                  split
                  · next hov =>
                      split at hov
                      · cases hov
                      · injection hov with hov
                        subst hov
                        exact ⟨_, by decide, rfl⟩
                  · next hadd =>
                      split at hadd
                      · injection hadd with hadd
                        subst hadd
                        split
                        · exact ⟨_, by decide, rfl⟩
                        · next hroom =>
                            exact absurd ⟨by omega, hv', by omega, by simpa using hn,
                              by omega⟩ h
                      · cases hadd

/-! ## Adding -/

theorem DynKind.typeId_range (k : DynKind) :
    invalidKphMsgType < k.typeId ∧ k.typeId < maxKphMsgType := by
  cases k <;> decide

theorem DynKind.typeId_injective {k k' : DynKind} (h : k.typeId = k'.typeId) :
    k = k' := by
  cases k <;> cases k' <;> first | rfl | exact absurd h (by decide)

theorem DynKind.exists_typeId {t : Nat}
    (h : invalidKphMsgType < t ∧ t < maxKphMsgType) : ∃ k : DynKind, k.typeId = t := by
  simp only [invalidKphMsgType, maxKphMsgType] at h
  obtain rfl | rfl | rfl | rfl : t = 1 ∨ t = 2 ∨ t = 3 ∨ t = 4 := by omega
  · exact ⟨.unicodeString, rfl⟩
  · exact ⟨.ansiString, rfl⟩
  · exact ⟨.stackTrace, rfl⟩
  · exact ⟨.sizedBuffer, rfl⟩

theorem DynData.claimed_lt (d : DynData) : d.claimed < 2 ^ 16 := by
  cases d with
  | unicodeString s => exact s.isUShort
  | ansiString s => exact s.isUShort
  | stackTrace t => exact Nat.mod_lt _ (by decide)
  | sizedBuffer b => exact b.isUShort

theorem KphmStackTrace.length_bytes (t : KphmStackTrace) :
    t.bytes.length = t.frames.length * sizeofPvoid := by
  have h : ∀ frames : List UInt64,
      (frames.flatMap fun frame => leEncode sizeofPvoid frame.toNat).length =
        frames.length * sizeofPvoid := by
    intro frames
    induction frames with
    | nil => rfl
    | cons x xs ih =>
        rw [List.flatMap_cons, List.length_append, ih, length_leEncode, List.length_cons,
          Nat.succ_mul, Nat.add_comm]
  exact h t.frames

theorem DynData.claimed_eq (d : DynData) : d.claimed = d.bytes.length % 2 ^ 16 := by
  cases d with
  | unicodeString s => exact (Nat.mod_eq_of_lt s.isUShort).symm
  | ansiString s => exact (Nat.mod_eq_of_lt s.isUShort).symm
  | stackTrace t => rw [DynData.bytes, KphmStackTrace.length_bytes]; rfl
  | sizedBuffer b => exact (Nat.mod_eq_of_lt b.isUShort).symm

theorem kphMsgDynAdd_eq (m : Mem) (f : UInt32) (d : DynData) :
    kphMsgDynAdd m f d = kphpMsgDynAdd m f d.kind.typeId d.claimed d.bytes := by
  cases d <;> rfl

variable {d : DynData}

theorem add_of_not_accepts
    (h : ¬ dynAccepts m f d.claimed) :
    ∃ status, ntSuccess status = false ∧ kphMsgDynAdd m f d = (status, []) := by
  obtain ⟨status, hs, hc⟩ :=
    claim_of_not_accepts d.claimed_lt d.kind.typeId_range h
  exact ⟨status, hs, by rw [kphMsgDynAdd_eq, kphpMsgDynAdd, hc]⟩

def dynAddLog (m : Mem) (f : UInt32) (d : DynData) : List Store :=
  dynClaimLog m f d.kind.typeId d.claimed ++ [⟨headerSize m, d.bytes⟩]

theorem claimLog_fields {t n : Nat}
    (hc : dynCount m < 8) (hs : 356 ≤ headerSize m) (hr : headerSize m + n ≤ 4096) :
    let m' := applyLog m (dynClaimLog m f t n)
    dynCount m' = dynCount m + 1 ∧ headerSize m' = headerSize m + n ∧
    entryFieldId m' (dynCount m) = f.toNat ∧
    entryTypeId m' (dynCount m) = t % 2 ^ 32 ∧
    entryOffset m' (dynCount m) = headerSize m ∧
    entryLength m' (dynCount m) = n := by
  have hf : f.toNat < 2 ^ 32 := f.toNat_lt
  intro m'
  refine ⟨?_, ?_, ?_, ?_, ?_, ?_⟩
  all_goals
    simp only [m', dynClaimLog, applyLog, dynCount, headerSize, entryFieldId, entryTypeId,
      entryOffset, entryLength, entryAddr] at hc hs hr ⊢
    simp (disch := simp only [Store.field, length_leEncode]; omega) only
      [Store.field_apply_disjoint, Store.field_apply_same]
    omega

theorem add_of_accepts
    (h : dynAccepts m f d.claimed) :
    kphMsgDynAdd m f d = (statusSuccess, dynAddLog m f d) := by
  have hc := claim_of_accepts d.kind.typeId_range h
  obtain ⟨-, hv, hcount, -, hr⟩ := h
  obtain ⟨-, -, -, -, hoff, -⟩ :=
    claimLog_fields (f := f) (t := d.kind.typeId) hcount (validate_size hv).1 hr
  rw [kphMsgDynAdd_eq, kphpMsgDynAdd, hc]
  simp only [hoff, dynAddLog]

theorem add_success_iff :
    (kphMsgDynAdd m f d).1 = statusSuccess ↔ dynAccepts m f d.claimed := by
  by_cases h : dynAccepts m f d.claimed
  · simp [add_of_accepts h, h]
  · obtain ⟨status, hs, hadd⟩ := add_of_not_accepts h
    rw [hadd]
    refine ⟨fun h' => ?_, fun h' => absurd h' h⟩
    simp only at h'
    subst h'
    exact absurd hs (by decide)

theorem written_addLog {a : Nat} :
    written (dynAddLog m f d) a ↔
      (a = 256 ∨ (entryAddr (dynCount m) ≤ a ∧ a < entryAddr (dynCount m) + 12) ∨
        (a = 2 ∨ a = 3) ∨
        (headerSize m ≤ a ∧ a < headerSize m + d.bytes.length)) := by
  simp only [dynAddLog, dynClaimLog, written_append, written_cons, written_nil,
    Store.covers, Store.field, length_leEncode, or_false]
  omega

theorem addLog_fields
    (h : dynAccepts m f d.claimed) :
    let m' := applyLog m (dynAddLog m f d)
    dynCount m' = dynCount m + 1 ∧ headerSize m' = headerSize m + d.claimed ∧
    entryFieldId m' (dynCount m) = f.toNat ∧
    entryTypeId m' (dynCount m) = d.kind.typeId ∧
    entryOffset m' (dynCount m) = headerSize m ∧
    entryLength m' (dynCount m) = d.claimed := by
  obtain ⟨-, hv, hc, -, hr⟩ := h
  obtain ⟨hs, -⟩ := validate_size hv
  have ht := d.kind.typeId_range
  simp only [invalidKphMsgType, maxKphMsgType, dynEntriesMax] at ht hc
  have hfields := claimLog_fields (f := f) (t := d.kind.typeId) hc hs hr
  rw [Nat.mod_eq_of_lt (show d.kind.typeId < 2 ^ 32 by omega)] at hfields
  intro m'
  have hm' : m' = Store.apply ⟨headerSize m, d.bytes⟩
      (applyLog m (dynClaimLog m f d.kind.typeId d.claimed)) := by
    simp only [m', dynAddLog, applyLog_append, applyLog]
  rw [hm']
  simp only [dynCount, headerSize, entryFieldId, entryTypeId, entryOffset, entryLength,
    entryAddr] at hfields hs hc ⊢
  simpa (disch := simp only; omega) only [Store.field_apply_disjoint] using hfields

/-- The frame of an accepted add: a field outside the four written places is
what it was. -/
theorem field_addLog_frame {a n : Nat}
    (h₁ : 256 < a ∨ a + n ≤ 256) (h₂ : 4 ≤ a ∨ a + n ≤ 2)
    (h₃ : a + n ≤ entryAddr (dynCount m) ∨ entryAddr (dynCount m) + 12 ≤ a)
    (h₄ : a + n ≤ headerSize m) :
    load (applyLog m (dynAddLog m f d)) a n = load m a n := by
  refine load_congr fun x hx₁ hx₂ => applyLog_of_not_written ?_
  rw [written_addLog]
  omega

/-- An entry already in the table keeps its four fields, and validation only
looks at the size among what an add writes. -/
theorem addLog_entry {i : Nat}
    (hs : 356 ≤ headerSize m) (hc : dynCount m < 8) (hi : i < dynCount m) :
    let m' := applyLog m (dynAddLog m f d)
    entryFieldId m' i = entryFieldId m i ∧ entryTypeId m' i = entryTypeId m i ∧
    entryOffset m' i = entryOffset m i ∧ entryLength m' i = entryLength m i := by
  intro m'
  simp only [entryFieldId, entryTypeId, entryOffset, entryLength, Bytes.field, m']
  refine ⟨?_, ?_, ?_, ?_⟩
  all_goals
    rw [field_addLog_frame] <;> simp only [entryAddr] <;> omega

theorem addLog_validate
    (h : dynAccepts m f d.claimed) :
    kphMsgValidate (applyLog m (dynAddLog m f d)) = statusSuccess := by
  obtain ⟨-, hsize, -⟩ := addLog_fields h
  obtain ⟨-, hv, -, -, hr⟩ := h
  obtain ⟨hver, ⟨hs₁, hs₂⟩, hid⟩ := validate_eq_success_iff.mp hv
  simp only [messageMinSize, sizeofMessage] at hs₁ hs₂ hr
  have hver' : headerVersion (applyLog m (dynAddLog m f d)) = headerVersion m := by
    rw [headerVersion, Bytes.field, field_addLog_frame (by omega) (by omega)
      (by simp only [entryAddr]; omega) (by omega)]
    rfl
  have hid' : headerMessageId (applyLog m (dynAddLog m f d)) = headerMessageId m := by
    rw [headerMessageId, Bytes.field, field_addLog_frame (by omega) (by omega)
      (by simp only [entryAddr]; omega) (by omega)]
    rfl
  rw [validate_eq_success_iff, hver', hid', hsize]
  exact ⟨hver, ⟨by simp only [messageMinSize]; omega, hr⟩, hid⟩

/-! ## Getting -/

theorem kphMsgDynGet_eq (m : Mem) (f : UInt32) (k : DynKind) :
    (kphMsgDynGet m f k).entry = (kphpMsgDynLookupEntry m f k.typeId).entry ∧
    (kphMsgDynGet m f k).inspected = (kphpMsgDynLookupEntry m f k.typeId).inspected := by
  cases k <;>
    simp only [kphMsgDynGet, kphMsgDynGetUnicodeString, kphMsgDynGetAnsiString,
      kphMsgDynGetStackTrace, kphMsgDynGetSizedBuffer, kphpMsgDynGet, DynKind.typeId] <;>
    split <;> next h => exact ⟨h.symm, rfl⟩

theorem lookup_entry_iff {t i : Nat}
    (hv : kphMsgValidate m = statusSuccess) :
    (kphpMsgDynLookupEntry m f t).entry = some i ↔
      ((kphpMsgDynFindEntry m f).1 = some i ∧ entryTypeId m i = t ∧
        entryOffset m i < headerSize m) := by
  have hok : ntSuccess (kphMsgValidate m) = true := ntSuccess_validate_iff.mpr hv
  rw [kphpMsgDynLookupEntry, if_neg (by simp [hok])]
  simp only
  split
  · next hn => simp [hn]
  · next j hj =>
      simp only [hj, Option.some.injEq]
      split
      · next ht =>
          simp only [reduceCtorEq, false_iff]
          rintro ⟨rfl, ht', -⟩
          exact ht ht'
      · next ht =>
          split
          · next ho =>
              simp only [reduceCtorEq, false_iff]
              rintro ⟨rfl, -, ho'⟩
              omega
          · next ho =>
              simp only [Option.some.injEq]
              constructor
              · rintro rfl
                exact ⟨rfl, by simpa using ht, by omega⟩
              · exact fun h => h.1

theorem lookup_inspected {t : Nat}
    (hv : kphMsgValidate m = statusSuccess) :
    (kphpMsgDynLookupEntry m f t).inspected = (kphpMsgDynFindEntry m f).2 := by
  have hok : ntSuccess (kphMsgValidate m) = true := ntSuccess_validate_iff.mpr hv
  rw [kphpMsgDynLookupEntry, if_neg (by simp [hok])]
  simp only
  repeat' split
  all_goals rfl

theorem lookup_status_iff {t : Nat} :
    (kphpMsgDynLookupEntry m f t).status = statusSuccess ↔
      (kphpMsgDynLookupEntry m f t).entry.isSome := by
  unfold kphpMsgDynLookupEntry
  split
  · next h =>
      simp only [Option.isSome_none, Bool.false_eq_true, iff_false]
      intro h'
      rw [h'] at h
      exact absurd h (by decide)
  · simp only
    split
    · simp only [Option.isSome_none, Bool.false_eq_true, iff_false]; decide
    · repeat' split
      all_goals first
        | (simp only [Option.isSome_none, Bool.false_eq_true, iff_false]; decide)
        | simp

theorem get_status_iff {k : DynKind} :
    (kphMsgDynGet m f k).status = statusSuccess ↔
      (kphpMsgDynLookupEntry m f k.typeId).entry.isSome := by
  have hlook := lookup_status_iff (m := m) (f := f) (t := k.typeId)
  cases k <;>
    simp only [kphMsgDynGet, kphMsgDynGetUnicodeString, kphMsgDynGetAnsiString,
      kphMsgDynGetStackTrace, kphMsgDynGetSizedBuffer, kphpMsgDynGet, DynKind.typeId]
      at hlook ⊢ <;>
    split <;> next h => simp_all

/-- The number of bytes a get of this kind hands out for an entry length. -/
def DynKind.outLength (k : DynKind) (length : Nat) : Nat :=
  match k with
  | .stackTrace => length / sizeofPvoid * sizeofPvoid
  | _ => length

theorem get_value {k : DynKind} {i : Nat}
    (h : (kphpMsgDynLookupEntry m f k.typeId).entry = some i) :
    (kphMsgDynGet m f k).value =
      load m (entryOffset m i) (k.outLength (entryLength m i)) := by
  cases k <;>
    simp only [kphMsgDynGet, kphMsgDynGetUnicodeString, kphMsgDynGetAnsiString,
      kphMsgDynGetStackTrace, kphMsgDynGetSizedBuffer, kphpMsgDynGet, DynKind.typeId]
      at h ⊢ <;>
    simp only [h, outBytes, DynKind.outLength]

end SystemInformer.KphLib
