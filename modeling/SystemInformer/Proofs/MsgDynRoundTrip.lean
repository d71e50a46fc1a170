import SystemInformer.Proofs.MsgDynBounds

/-!
# What is added can be read back

A run is `KphMsgInit` followed by any adds. Beside the memory it keeps the
adds that succeeded, in order, and `DynRep` says that the message is their
concatenation: entry `i` carries the `i`-th add's field, type and claimed
length, its data starts where the previous one ended, and `Header.Size` is the
end of the last one. Every step preserves it, whatever the argument.

Reading back is where two lengths make a difference. A lookup wants the
entry's offset strictly below `Header.Size`, so data of no bytes at all is
unreadable until something longer follows it; and an argument of 65536 bytes
or more is claimed, and later handed out, at its length modulo 65536. The
states of a run all read back what was added exactly when no accepted add is
of either kind.
-/

namespace SystemInformer.KphLib

open Bytes

/-- The state of a run: the memory, and the adds that succeeded so far. -/
structure DynRun where
  mem : Mem
  added : List (UInt32 × DynData)

def DynRun.step (r : DynRun) (call : UInt32 × DynData) : DynRun :=
  let result := kphMsgDynAdd r.mem call.1 call.2
  ⟨applyLog r.mem result.2,
    if result.1 = statusSuccess then r.added ++ [call] else r.added⟩

/-- `KphMsgInit` on arbitrary memory, then a list of adds. -/
def dynRun (m : Mem) (messageId : UInt32) (timeStamp : UInt64)
    (calls : List (UInt32 × DynData)) : DynRun :=
  calls.foldl DynRun.step ⟨applyLog m (kphMsgInit messageId timeStamp), []⟩

/-- The message ids `KphMsgValidate` lets through. -/
def validMessageId (messageId : UInt32) : Prop :=
  messageId.toNat = kphMsgUnhandled ∨
    (invalidKphMsg < messageId.toNat ∧ messageId.toNat < maxKphMsg)

def dynEnd (added : List (UInt32 × DynData)) : Nat :=
  messageMinSize + (added.map fun call => call.2.claimed).sum

/-- Entry `i` holds the given add, with its data from `offset` on. -/
structure EntryRep (m : Mem) (i : Nat) (call : UInt32 × DynData) (offset : Nat) :
    Prop where
  fieldId : entryFieldId m i = call.1.toNat
  typeId : entryTypeId m i = call.2.kind.typeId
  offset_eq : entryOffset m i = offset
  length : entryLength m i = call.2.claimed
  data : load m offset call.2.claimed = call.2.bytes.take call.2.claimed

/-- The message is the concatenation of these adds. -/
structure DynRep (m : Mem) (added : List (UInt32 × DynData)) : Prop where
  valid : kphMsgValidate m = statusSuccess
  count : dynCount m = added.length
  size : headerSize m = dynEnd added
  nodup : (added.map Prod.fst).Nodup
  entry : ∀ i (h : i < added.length), EntryRep m i added[i] (dynEnd (added.take i))

/-! ## The invariant -/

theorem dynEnd_append (added : List (UInt32 × DynData)) (call : UInt32 × DynData) :
    dynEnd (added ++ [call]) = dynEnd added + call.2.claimed := by
  simp [dynEnd, Nat.add_assoc]

theorem dynEnd_take_add_le {added : List (UInt32 × DynData)} {i : Nat}
    (h : i < added.length) :
    dynEnd (added.take i) + added[i].2.claimed ≤ dynEnd added := by
  have hsplit : added = added.take i ++ (added[i] :: added.drop (i + 1)) := by
    rw [← List.drop_eq_getElem_cons h, List.take_append_drop]
  have hsum : (added.map fun call => call.2.claimed).sum =
      ((added.take i).map fun call => call.2.claimed).sum +
        (added[i].2.claimed + ((added.drop (i + 1)).map fun call => call.2.claimed).sum) := by
    have := congrArg (fun l => (l.map fun call : UInt32 × DynData => call.2.claimed).sum)
      hsplit
    simpa only [List.map_append, List.map_cons, List.sum_append, List.sum_cons] using this
  simp only [dynEnd]
  omega

theorem dynRep_init (m : Mem) {messageId : UInt32} (timeStamp : UInt64)
    (h : validMessageId messageId) :
    DynRep (applyLog m (kphMsgInit messageId timeStamp)) [] := by
  have hzero : applyLog m (kphMsgInit messageId timeStamp) 256 = 0 := by
    simp only [kphMsgInit, applyLog]
    rw [Store.apply_of_not_covers, Store.apply_of_not_covers, Store.apply_of_not_covers,
      Store.apply_of_not_covers]
    · have hc : (⟨0, List.replicate messageMinSize 0⟩ : Store).covers 256 := by
        simp only [Store.covers, List.length_replicate, messageMinSize]
        omega
      rw [Store.apply, if_pos hc]
      exact List.getD_replicate (0 : UInt8) (show 256 < messageMinSize by decide)
    all_goals simp only [Store.covers, Store.field, length_leEncode]; omega
  obtain ⟨hver, hsize, hmsg⟩ := kphMsgInit_header m messageId timeStamp
  refine ⟨?_, ?_, ?_, List.nodup_nil, fun i hi => absurd hi (Nat.not_lt_zero _)⟩
  · rw [validate_eq_success_iff, hver, hsize, hmsg]
    exact ⟨rfl, by decide, h⟩
  · simp [dynCount, Bytes.field, load, hzero, leDecode]
  · rw [hsize]
    rfl

theorem EntryRep.frame {m : Mem} {f : UInt32} {d : DynData} {i offset : Nat}
    {call : UInt32 × DynData} (hs : 356 ≤ offset) (hc : dynCount m < 8)
    (hi : i < dynCount m) (hend : offset + call.2.claimed ≤ headerSize m)
    (h : EntryRep m i call offset) :
    EntryRep (applyLog m (dynAddLog m f d)) i call offset := by
  obtain ⟨h₁, h₂, h₃, h₄⟩ := addLog_entry (f := f) (d := d) (by omega) hc hi
  refine ⟨by rw [h₁, h.fieldId], by rw [h₂, h.typeId], by rw [h₃, h.offset_eq],
    by rw [h₄, h.length], ?_⟩
  rw [field_addLog_frame (by omega) (by omega) (by simp only [entryAddr]; omega) hend]
  exact h.data

theorem load_addLog_data {m : Mem} {f : UInt32} {d : DynData} :
    load (applyLog m (dynAddLog m f d)) (headerSize m) d.claimed =
      d.bytes.take d.claimed := by
  have hle : d.claimed ≤ d.bytes.length := by
    rw [d.claimed_eq]
    exact Nat.mod_le _ _
  have hall : load (applyLog m (dynAddLog m f d)) (headerSize m) d.bytes.length =
      d.bytes := by
    rw [dynAddLog, applyLog_append]
    exact Store.load_apply_same ⟨headerSize m, d.bytes⟩ _
  have htake : load (applyLog m (dynAddLog m f d)) (headerSize m) d.claimed =
      (load (applyLog m (dynAddLog m f d)) (headerSize m) d.bytes.length).take
        d.claimed := by
    rw [load, load, ← List.map_take, List.take_range, Nat.min_eq_left hle]
  rw [htake, hall]

theorem field_fresh {m : Mem} {added : List (UInt32 × DynData)} {f : UInt32}
    (hrep : DynRep m added) (h : (kphpMsgDynFindEntry m f).1 = none) :
    f ∉ added.map Prod.fst := by
  intro hmem
  obtain ⟨call, hcall, rfl⟩ := List.mem_map.mp hmem
  obtain ⟨i, hi, rfl⟩ := List.getElem_of_mem hcall
  exact findEntry_none_iff.mp h i (by rw [hrep.count]; exact hi) (hrep.entry i hi).fieldId

theorem dynRep_add {m : Mem} {added : List (UInt32 × DynData)} {f : UInt32} {d : DynData}
    (hrep : DynRep m added) (h : dynAccepts m f d.claimed) :
    DynRep (applyLog m (dynAddLog m f d)) (added ++ [(f, d)]) := by
  obtain ⟨hcount, hsize, hfield, htype, hoff, hlen⟩ := addLog_fields h
  have hvalid := addLog_validate h
  obtain ⟨-, -, hc, hnone, -⟩ := h
  simp only [dynEntriesMax] at hc
  have hfresh := field_fresh hrep hnone
  refine ⟨hvalid, ?_, ?_, ?_, ?_⟩
  · rw [hcount, hrep.count, List.length_append, List.length_singleton]
  · rw [hsize, hrep.size, dynEnd_append]
  · rw [List.map_append, List.map_singleton]
    exact List.nodup_append.mpr ⟨hrep.nodup, List.nodup_singleton f,
      fun a ha b hb => by rw [List.mem_singleton.mp hb]; rintro rfl; exact hfresh ha⟩
  · intro i hi
    rw [List.length_append, List.length_singleton] at hi
    rcases Nat.lt_succ_iff_lt_or_eq.mp hi with hlt | heq
    · rw [List.getElem_append_left hlt, List.take_append_of_le_length (Nat.le_of_lt hlt)]
      refine EntryRep.frame ?_ hc (by rw [hrep.count]; exact hlt) ?_ (hrep.entry i hlt)
      · simp only [dynEnd, messageMinSize]; omega
      · rw [hrep.size]; exact dynEnd_take_add_le hlt
    · subst heq
      rw [List.getElem_append_right (Nat.le_refl _), List.take_left, ← hrep.size]
      simp only [Nat.sub_self, List.getElem_cons_zero]
      rw [← hrep.count]
      exact ⟨hfield, htype, hoff, hlen, load_addLog_data⟩

theorem dynRep_step {r : DynRun} (call : UInt32 × DynData) (h : DynRep r.mem r.added) :
    DynRep (r.step call).mem (r.step call).added := by
  by_cases hacc : dynAccepts r.mem call.1 call.2.claimed
  · simp only [DynRun.step, add_of_accepts hacc, if_true]
    exact dynRep_add h hacc
  · obtain ⟨status, hs, hadd⟩ := add_of_not_accepts hacc
    have hne : status ≠ statusSuccess := by
      rintro rfl
      exact absurd hs (by decide)
    simp only [DynRun.step, hadd, applyLog, if_neg hne]
    exact h

theorem dynRep_run {m : Mem} {messageId : UInt32} {timeStamp : UInt64}
    (h : validMessageId messageId) (calls : List (UInt32 × DynData)) :
    DynRep (dynRun m messageId timeStamp calls).mem
      (dynRun m messageId timeStamp calls).added := by
  have hfold : ∀ r : DynRun, DynRep r.mem r.added →
      DynRep (calls.foldl DynRun.step r).mem (calls.foldl DynRun.step r).added := by
    induction calls with
    | nil => exact fun r hr => hr
    | cons call rest ih => exact fun r hr => ih _ (dynRep_step call hr)
  exact hfold _ (dynRep_init m timeStamp h)

/-! ## Reading back -/

/-- What the state of a run promises: every field added is read back byte for
byte, a field that was not added or has another type is not found, and an add
that fails leaves the message as it was. -/
structure ReadsBack (r : DynRun) : Prop where
  present : ∀ call ∈ r.added,
    (kphMsgDynGet r.mem call.1 call.2.kind).status = statusSuccess ∧
    (kphMsgDynGet r.mem call.1 call.2.kind).value = call.2.bytes
  absent : ∀ f k, (∀ d, (f, d) ∈ r.added → d.kind ≠ k) →
    ntSuccess (kphMsgDynGet r.mem f k).status = false
  failed : ∀ f d, (kphMsgDynAdd r.mem f d).1 ≠ statusSuccess →
    applyLog r.mem (kphMsgDynAdd r.mem f d).2 = r.mem

theorem get_failure {m : Mem} {f : UInt32} {k : DynKind}
    (h : (kphpMsgDynLookupEntry m f k.typeId).entry = none) :
    ntSuccess (kphMsgDynGet m f k).status = false := by
  have hlook : ntSuccess (kphpMsgDynLookupEntry m f k.typeId).status = false := by
    unfold kphpMsgDynLookupEntry at h ⊢
    split
    · next hv => exact hv
    · next hv =>
        rw [if_neg hv] at h
        simp only at h ⊢
        split
        · exact (by decide : ntSuccess statusNotFound = false)
        · next i hi =>
            simp only [hi] at h ⊢
            split
            · exact (by decide : ntSuccess statusContextMismatch = false)
            · next ht =>
                rw [if_neg ht] at h
                split
                · exact (by decide : ntSuccess statusHeapCorruption = false)
                · next ho => rw [if_neg ho] at h; cases h
  cases k <;>
    simp only [kphMsgDynGet, kphMsgDynGetUnicodeString, kphMsgDynGetAnsiString,
      kphMsgDynGetStackTrace, kphMsgDynGetSizedBuffer, kphpMsgDynGet, DynKind.typeId]
      at h hlook ⊢ <;>
    simp only [h, hlook]

theorem DynData.outLength_claimed {d : DynData} (h : d.fitsUShort) :
    d.kind.outLength d.claimed = d.bytes.length := by
  have hlt := d.fitsUShort_iff.mp h
  have hc : d.claimed = d.bytes.length := by rw [d.claimed_eq, Nat.mod_eq_of_lt hlt]
  cases d with
  | stackTrace t =>
      rw [hc]
      simp only [DynData.bytes, DynData.kind, DynKind.outLength]
      rw [KphmStackTrace.length_bytes, Nat.mul_div_cancel _ (by decide)]
  | _ => exact hc

theorem DynKind.outLength_le (k : DynKind) (n : Nat) : k.outLength n ≤ n := by
  cases k with
  | stackTrace => exact Nat.div_mul_le_self n sizeofPvoid
  | _ => exact Nat.le_refl n

theorem DynRep.find {m : Mem} {added : List (UInt32 × DynData)} (hrep : DynRep m added)
    {i : Nat} (hi : i < added.length) :
    (kphpMsgDynFindEntry m added[i].1).1 = some i := by
  rw [findEntry_some_iff]
  refine ⟨by rw [hrep.count]; exact hi, (hrep.entry i hi).fieldId, fun k hk heq => ?_⟩
  have hk' : k < added.length := Nat.lt_trans hk hi
  rw [(hrep.entry k hk').fieldId] at heq
  have hik : i < (added.map Prod.fst).length := by simpa using hi
  have hkk : k < (added.map Prod.fst).length := by simpa using hk'
  have hfst : (added.map Prod.fst)[k] = (added.map Prod.fst)[i] := by
    simpa using UInt32.toNat_inj.mp heq
  have := (List.Nodup.getElem_inj_iff hrep.nodup).mp hfst
  omega

theorem readsBack_of_rep {r : DynRun} (hrep : DynRep r.mem r.added)
    (hgood : ∀ call ∈ r.added, 0 < call.2.bytes.length ∧ call.2.fitsUShort) :
    ReadsBack r := by
  refine ⟨fun call hcall => ?_, fun f k hother => ?_, fun f d hfail => ?_⟩
  · obtain ⟨i, hi, rfl⟩ := List.getElem_of_mem hcall
    obtain ⟨hpos, hfit⟩ := hgood _ hcall
    have hlt := DynData.fitsUShort_iff _ |>.mp hfit
    have hclaimed : r.added[i].2.claimed = r.added[i].2.bytes.length := by
      rw [DynData.claimed_eq, Nat.mod_eq_of_lt hlt]
    have hent := hrep.entry i hi
    have hend := dynEnd_take_add_le hi
    have hlook : (kphpMsgDynLookupEntry r.mem r.added[i].1 r.added[i].2.kind.typeId).entry
        = some i := by
      rw [lookup_entry_iff hrep.valid]
      refine ⟨hrep.find hi, hent.typeId, ?_⟩
      rw [hent.offset_eq, hrep.size]
      omega
    refine ⟨get_status_iff.mpr (by rw [hlook]; rfl), ?_⟩
    rw [get_value hlook, hent.offset_eq, hent.length, DynData.outLength_claimed hfit,
      ← hclaimed, hent.data, hclaimed, List.take_length]
  · refine get_failure ?_
    rw [Option.eq_none_iff_forall_ne_some]
    intro i hi
    obtain ⟨hfind, htype, -⟩ := (lookup_entry_iff hrep.valid).mp hi
    obtain ⟨hlt, hid, -⟩ := findEntry_some_iff.mp hfind
    rw [hrep.count] at hlt
    have hent := hrep.entry i hlt
    rw [hent.fieldId] at hid
    rw [hent.typeId] at htype
    have hf : r.added[i].1 = f := UInt32.toNat_inj.mp hid
    refine hother r.added[i].2 ?_ (DynKind.typeId_injective htype)
    rw [← hf]
    exact List.getElem_mem hlt
  · have hacc : ¬ dynAccepts r.mem f d.claimed := fun h => hfail (add_success_iff.mpr h)
    obtain ⟨status, -, hadd⟩ := add_of_not_accepts hacc
    rw [hadd]
    rfl

theorem dynRun_append {m : Mem} {messageId : UInt32} {timeStamp : UInt64}
    {calls : List (UInt32 × DynData)} {call : UInt32 × DynData} :
    dynRun m messageId timeStamp (calls ++ [call]) =
      (dynRun m messageId timeStamp calls).step call := by
  simp only [dynRun, List.foldl_append, List.foldl_cons, List.foldl_nil]

/-- The step that breaks the promise: an add the message accepts although its
data is empty or too long for a `USHORT` cannot be read back right after. -/
theorem good_of_readsBack (r : DynRun) (call : UInt32 × DynData)
    (hrep : DynRep r.mem r.added) (hacc : dynAccepts r.mem call.1 call.2.claimed)
    (hread : ReadsBack (r.step call)) :
    0 < call.2.bytes.length ∧ call.2.fitsUShort := by
  obtain ⟨-, hsize, -, -, hoff, hlen⟩ := addLog_fields hacc
  have hrep' := dynRep_add hrep hacc
  have hstep : r.step call =
      ⟨applyLog r.mem (dynAddLog r.mem call.1 call.2), r.added ++ [call]⟩ := by
    simp only [DynRun.step, add_of_accepts hacc, if_true]
  rw [hstep] at hread
  obtain ⟨hstatus, hvalue⟩ := hread.present call (by simp)
  obtain ⟨i, hi⟩ := Option.isSome_iff_exists.mp (get_status_iff.mp hstatus)
  obtain ⟨hfind, -, hbelow⟩ := (lookup_entry_iff hrep'.valid).mp hi
  have hlast : (kphpMsgDynFindEntry (applyLog r.mem (dynAddLog r.mem call.1 call.2))
      call.1).1 = some r.added.length := by
    have := hrep'.find (i := r.added.length) (by simp)
    simpa using this
  have hidx : i = dynCount r.mem := by
    rw [hlast] at hfind
    injection hfind with hfind
    rw [hrep.count, hfind]
  rw [hidx, hoff, hsize] at hbelow
  rw [hidx] at hi
  rw [get_value hi, hlen] at hvalue
  have hle := DynKind.outLength_le call.2.kind call.2.claimed
  have hlength := congrArg List.length hvalue
  rw [length_load] at hlength
  have hclaimed := call.2.claimed_lt
  have hmod := call.2.claimed_eq
  exact ⟨by omega, (DynData.fitsUShort_iff _).mpr (by omega)⟩

/-- Every state a run reaches reads back what was added exactly when no add
the message accepts is empty or too long for a `USHORT`. -/
theorem dynRun_reads_back_iff {m : Mem} {messageId : UInt32} {timeStamp : UInt64}
    {calls : List (UInt32 × DynData)} (hid : validMessageId messageId) :
    (∀ pre, pre <+: calls → ReadsBack (dynRun m messageId timeStamp pre)) ↔
      (∀ pre call, pre ++ [call] <+: calls →
        dynAccepts (dynRun m messageId timeStamp pre).mem call.1 call.2.claimed →
        0 < call.2.bytes.length ∧ call.2.fitsUShort) := by
  constructor
  · intro h pre call hpre hacc
    have hread := h (pre ++ [call]) hpre
    rw [dynRun_append] at hread
    exact good_of_readsBack _ _ (dynRep_run hid pre) hacc hread
  · intro h pre hpre
    refine readsBack_of_rep (dynRep_run hid pre) ?_
    induction pre using List.reverseRecOn with
    | nil => exact fun call hcall => absurd hcall (List.not_mem_nil)
    | append_singleton pre call ih =>
        intro c hc
        have hpre' : pre <+: calls := (List.prefix_append pre [call]).trans hpre
        rw [dynRun_append, DynRun.step] at hc
        simp only at hc
        split at hc
        · next hok =>
            rcases List.mem_append.mp hc with hc' | hc'
            · exact ih hpre' c hc'
            · rw [List.mem_singleton.mp hc']
              exact h pre call hpre (add_success_iff.mp hok)
        · exact ih hpre' c hc

theorem dynRun_reads_back_iff_short :
    validMessageId 1 ∧
    ((∀ pre, pre <+: [(1, DynData.unicodeString shortString)] →
        ReadsBack (dynRun (fun _ => 0) 1 0 pre)) ↔
      (∀ pre call, pre ++ [call] <+: [(1, DynData.unicodeString shortString)] →
        dynAccepts (dynRun (fun _ => 0) 1 0 pre).mem call.1 call.2.claimed →
        0 < call.2.bytes.length ∧ call.2.fitsUShort)) :=
  ⟨Or.inr (by decide), dynRun_reads_back_iff (Or.inr (by decide))⟩

def emptyString : CountedBytes := ⟨[], by decide⟩

/-- Adding an empty file name to a fresh message succeeds, and getting it back
reports a corrupt heap. -/
theorem dynRun_empty_unreadable :
    ¬ (∀ m messageId timeStamp calls, validMessageId messageId →
        ReadsBack (dynRun m messageId timeStamp calls)) := by
  intro h
  have hread := h (fun _ => 0) 1 0 [(1, .unicodeString emptyString)] (Or.inr (by decide))
  have hacc : dynAccepts blankMessage 1 (DynData.unicodeString emptyString).claimed := by
    decide +kernel
  have hgood := good_of_readsBack ⟨blankMessage, []⟩ (1, .unicodeString emptyString)
    (dynRep_init (fun _ => 0) 0 (Or.inr (by decide))) hacc hread
  exact absurd hgood.1 (by decide)

end SystemInformer.KphLib
