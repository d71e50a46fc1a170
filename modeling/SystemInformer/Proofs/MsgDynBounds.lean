import SystemInformer.Proofs.MsgDynTable

/-!
# Where the dynamic data functions read and write

Two questions about one message. Reading: a message that crossed the
kernel/user boundary passes `KphMsgValidate` on its header alone, so the table
is whatever the sender left there; `readableTable` is exactly what has to be
true of it for every get to stay inside the table and inside the data. Writing:
an add claims a `USHORT` number of bytes and copies as many as its argument
has, and the two agree exactly as long as the argument is shorter than 65536
bytes, which only a stack trace can fail to be. A message `KphMsgValidate`
refuses is refused by every add, so validity is not a hypothesis there.
-/

namespace SystemInformer.KphLib

open Bytes

/-! ## Reading an untrusted message -/

/-- A get that inspects the eight table entries only and, when it succeeds,
designates bytes between the table and the end of the message. -/
structure DynGet.ReadsSafely {α : Type} (m : Mem) (g : DynGet α) : Prop where
  inspected : ∀ i ∈ g.inspected, i < dynEntriesMax
  range : g.status = statusSuccess → ∃ i, g.entry = some i ∧
    messageMinSize ≤ entryOffset m i ∧
    entryOffset m i + entryLength m i ≤ headerSize m

/-- The table of a message every field of which can be read safely. The scan
never gets past the first entry with a given field id, and the lookup rejects
an unknown type and an offset beyond the message by itself; what is left to
ask for is the count and the range of every entry that can be reached. -/
def readableTable (m : Mem) : Prop :=
  dynCount m ≤ dynEntriesMax ∧
  ∀ i < dynCount m,
    (∀ j < i, entryFieldId m j ≠ entryFieldId m i) →
    (invalidKphMsgType < entryTypeId m i ∧ entryTypeId m i < maxKphMsgType) →
    entryOffset m i < headerSize m →
    messageMinSize ≤ entryOffset m i ∧
      entryOffset m i + entryLength m i ≤ headerSize m

theorem exists_unused_field (m : Mem) :
    ∃ f : UInt32, ∀ j < dynEntriesMax, entryFieldId m j ≠ f.toNat := by
  have hcard : ((Finset.range 8).image (entryFieldId m)).card < (Finset.range 9).card :=
    Nat.lt_of_le_of_lt Finset.card_image_le (by simp)
  obtain ⟨x, hx, hnot⟩ := Finset.exists_mem_notMem_of_card_lt_card hcard
  have hx9 : x < 9 := Finset.mem_range.mp hx
  have hxn : (UInt32.ofNat x).toNat = x := by
    rw [UInt32.toNat_ofNat', Nat.mod_eq_of_lt (by omega)]
  refine ⟨UInt32.ofNat x, fun j hj heq => hnot ?_⟩
  rw [hxn] at heq
  exact Finset.mem_image.mpr ⟨j, Finset.mem_range.mpr hj, heq⟩

theorem dynCount_le_of_reads {m : Mem} (hv : kphMsgValidate m = statusSuccess)
    (h : ∀ f k, (kphMsgDynGet m f k).ReadsSafely m) : dynCount m ≤ dynEntriesMax := by
  rcases Nat.lt_or_ge dynEntriesMax (dynCount m) with hlt | hle
  · obtain ⟨f, hf⟩ := exists_unused_field m
    have hmem : dynEntriesMax ∈ (kphMsgDynGet m f .unicodeString).inspected := by
      rw [(kphMsgDynGet_eq m f .unicodeString).2, lookup_inspected hv,
        mem_findEntry_inspected]
      exact ⟨hlt, hf⟩
    exact absurd ((h f .unicodeString).inspected _ hmem) (Nat.lt_irrefl _)
  · exact hle

theorem readableTable_of_reads {m : Mem} (hv : kphMsgValidate m = statusSuccess)
    (h : ∀ f k, (kphMsgDynGet m f k).ReadsSafely m) : readableTable m := by
  refine ⟨dynCount_le_of_reads hv h, fun i hi hfirst htype hoff => ?_⟩
  obtain ⟨k, hk⟩ := DynKind.exists_typeId htype
  have hid : entryFieldId m i < 2 ^ 32 := field_lt m (entryAddr i) 4
  have hnat : (UInt32.ofNat (entryFieldId m i)).toNat = entryFieldId m i := by
    rw [UInt32.toNat_ofNat', Nat.mod_eq_of_lt hid]
  have hlook : (kphpMsgDynLookupEntry m (UInt32.ofNat (entryFieldId m i)) k.typeId).entry
      = some i := by
    rw [lookup_entry_iff hv, findEntry_some_iff, hnat]
    exact ⟨⟨hi, rfl, hfirst⟩, hk.symm, hoff⟩
  have hsafe := h (UInt32.ofNat (entryFieldId m i)) k
  obtain ⟨j, hj, hrange⟩ := hsafe.range (get_status_iff.mpr (by rw [hlook]; rfl))
  rw [(kphMsgDynGet_eq _ _ _).1, hlook] at hj
  injection hj with hj
  subst hj
  exact hrange

theorem reads_of_readableTable {m : Mem} (hv : kphMsgValidate m = statusSuccess)
    (h : readableTable m) (f : UInt32) (k : DynKind) :
    (kphMsgDynGet m f k).ReadsSafely m := by
  obtain ⟨hcount, hentries⟩ := h
  refine ⟨fun i hi => ?_, fun hstatus => ?_⟩
  · rw [(kphMsgDynGet_eq m f k).2, lookup_inspected hv, mem_findEntry_inspected] at hi
    exact Nat.lt_of_lt_of_le hi.1 hcount
  · obtain ⟨i, hi⟩ := Option.isSome_iff_exists.mp (get_status_iff.mp hstatus)
    obtain ⟨hfind, htype, hoff⟩ := (lookup_entry_iff hv).mp hi
    obtain ⟨hlt, hid, hfirst⟩ := findEntry_some_iff.mp hfind
    refine ⟨i, by rw [(kphMsgDynGet_eq m f k).1, hi], hentries i hlt ?_ ?_ hoff⟩
    · intro j hj
      rw [hid]
      exact hfirst j hj
    · rw [htype]
      exact k.typeId_range

/-- Every get on a validated message stays inside the table and answers a
range inside the data exactly when the table is `readableTable`. -/
theorem dynGet_reads_safely_iff {m : Mem} (hv : ntSuccess (kphMsgValidate m) = true) :
    (∀ f k, (kphMsgDynGet m f k).ReadsSafely m) ↔ readableTable m := by
  have hv' := ntSuccess_validate_iff.mp hv
  exact ⟨readableTable_of_reads hv', fun h f k => reads_of_readableTable hv' h f k⟩

/-- A message with the header of `KphMsgInit` and zeros elsewhere. -/
def blankMessage : Mem := applyLog (fun _ => 0) (kphMsgInit 1 0)

theorem dynGet_reads_safely_iff_blank :
    ntSuccess (kphMsgValidate blankMessage) = true ∧
    ((∀ f k, (kphMsgDynGet blankMessage f k).ReadsSafely blankMessage) ↔
      readableTable blankMessage) :=
  ⟨by decide +kernel, dynGet_reads_safely_iff (by decide +kernel)⟩

def nineEntries : Mem := (Store.field 256 1 9).apply blankMessage

/-- A blank message with one file-name string entry at offset 0, 65535 bytes
long. -/
def wildEntry : Mem :=
  applyLog blankMessage
    [Store.field 256 1 1, Store.field 260 4 1, Store.field 264 4 1,
     Store.field 268 2 0, Store.field 270 2 65535]

/-- A validated message whose scan leaves the table, and one whose get
succeeds with a range that starts at the header and ends past the message. -/
theorem dynGet_unsafe_messages :
    ¬ (∀ m, ntSuccess (kphMsgValidate m) = true →
        ∀ f k, ∀ i ∈ (kphMsgDynGet m f k).inspected, i < dynEntriesMax) ∧
    ¬ (∀ m, ntSuccess (kphMsgValidate m) = true →
        ∀ f k, (kphMsgDynGet m f k).ReadsSafely m) := by
  constructor
  · intro h
    have hmem : 8 ∈ (kphMsgDynGet nineEntries 1 .unicodeString).inspected := by
      decide +kernel
    exact absurd (h nineEntries (by decide +kernel) 1 .unicodeString 8 hmem) (by decide)
  · intro h
    have hstatus : (kphMsgDynGet wildEntry 1 .unicodeString).status = statusSuccess := by
      decide +kernel
    have hentry : (kphMsgDynGet wildEntry 1 .unicodeString).entry = some 0 := by
      decide +kernel
    have hoff : entryOffset wildEntry 0 = 0 := by decide +kernel
    obtain ⟨i, hi, hmin, -⟩ :=
      (h wildEntry (by decide +kernel) 1 .unicodeString).range hstatus
    rw [hentry] at hi
    injection hi with hi
    subst hi
    rw [hoff] at hmin
    exact absurd hmin (by decide)

/-! ## Writing -/

/-- The address `a` belongs to the data of entry `i`. -/
def inEntry (m : Mem) (i a : Nat) : Prop :=
  entryOffset m i ≤ a ∧ a < entryOffset m i + entryLength m i

/-- A well-formed table: at most eight entries, whose ranges are pairwise
disjoint and tile the data between the table and `Header.Size`. -/
structure WfTable (m : Mem) : Prop where
  count_le : dynCount m ≤ dynEntriesMax
  disjoint : ∀ i j, i < dynCount m → j < dynCount m → i ≠ j →
    ∀ a, ¬ (inEntry m i a ∧ inEntry m j a)
  tile : ∀ a, (∃ i < dynCount m, inEntry m i a) ↔
    (messageMinSize ≤ a ∧ a < headerSize m)

/-- An add that writes inside the message only and, when it succeeds, writes
exactly the bytes the message grew by, one new table entry and the two
counters, and leaves a well-formed table. -/
structure AddInBounds (m : Mem) (r : NtStatus × List Store) : Prop where
  inside : ∀ a, written r.2 a → a < sizeofMessage
  writes : r.1 = statusSuccess → ∀ a, written r.2 a ↔
    ((headerSize m ≤ a ∧ a < headerSize (applyLog m r.2)) ∨
      (entryAddr (dynCount m) ≤ a ∧ a < entryAddr (dynCount m + 1)) ∨
      a = 256 ∨ (2 ≤ a ∧ a < 4))
  count : r.1 = statusSuccess → dynCount (applyLog m r.2) = dynCount m + 1
  table : r.1 = statusSuccess → WfTable (applyLog m r.2)
  size_le : r.1 = statusSuccess → headerSize (applyLog m r.2) ≤ sizeofMessage

/-- The byte count of the argument fits the `USHORT` it is claimed with. A
string or a sized buffer always does; a stack trace does up to 8191 frames. -/
def DynData.fitsUShort : DynData → Prop
  | .stackTrace t => t.frames.length < 8192
  | _ => True

theorem DynData.fitsUShort_iff (d : DynData) :
    d.fitsUShort ↔ d.bytes.length < 2 ^ 16 := by
  cases d with
  | unicodeString s => exact ⟨fun _ => s.isUShort, fun _ => trivial⟩
  | ansiString s => exact ⟨fun _ => s.isUShort, fun _ => trivial⟩
  | stackTrace t =>
      rw [fitsUShort, DynData.bytes, KphmStackTrace.length_bytes, sizeofPvoid]
      omega
  | sizedBuffer b => exact ⟨fun _ => b.isUShort, fun _ => trivial⟩

theorem wfTable_add {m : Mem} {f : UInt32} {d : DynData} (hw : WfTable m)
    (h : dynAccepts m f d.claimed) : WfTable (applyLog m (dynAddLog m f d)) := by
  obtain ⟨hcount, hsize, -, -, hoff, hlen⟩ := addLog_fields h
  obtain ⟨-, hv, hc, -, -⟩ := h
  obtain ⟨hs, -⟩ := validate_size hv
  -- An old entry keeps its range; the new one is `[old size, new size)`.
  have hold : ∀ i < dynCount m, ∀ a,
      inEntry (applyLog m (dynAddLog m f d)) i a ↔ inEntry m i a := by
    intro i hi a
    obtain ⟨-, -, ho, hl⟩ := addLog_entry (f := f) (d := d) hs hc hi
    rw [inEntry, inEntry, ho, hl]
  have hnew : ∀ a, inEntry (applyLog m (dynAddLog m f d)) (dynCount m) a ↔
      (headerSize m ≤ a ∧ a < headerSize m + d.claimed) := by
    intro a
    rw [inEntry, hoff, hlen]
  have hbelow : ∀ i < dynCount m, ∀ a, inEntry m i a → a < headerSize m :=
    fun i hi a ha => ((hw.tile a).mp ⟨i, hi, ha⟩).2
  refine ⟨by rw [hcount]; exact hc, ?_, ?_⟩
  · intro i j hi hj hij a ⟨hai, haj⟩
    rw [hcount] at hi hj
    rcases Nat.lt_succ_iff_lt_or_eq.mp hi with hi' | rfl
    · rcases Nat.lt_succ_iff_lt_or_eq.mp hj with hj' | rfl
      · exact hw.disjoint i j hi' hj' hij a ⟨(hold i hi' a).mp hai, (hold j hj' a).mp haj⟩
      · have := hbelow i hi' a ((hold i hi' a).mp hai)
        have := (hnew a).mp haj
        omega
    · rcases Nat.lt_succ_iff_lt_or_eq.mp hj with hj' | rfl
      · have := hbelow j hj' a ((hold j hj' a).mp haj)
        have := (hnew a).mp hai
        omega
      · exact hij rfl
  · intro a
    rw [hcount, hsize]
    constructor
    · rintro ⟨i, hi, ha⟩
      rcases Nat.lt_succ_iff_lt_or_eq.mp hi with hi' | rfl
      · have := (hw.tile a).mp ⟨i, hi', (hold i hi' a).mp ha⟩
        omega
      · have := (hnew a).mp ha
        simp only [messageMinSize]
        omega
    · rintro ⟨h₁, h₂⟩
      rcases Nat.lt_or_ge a (headerSize m) with hlt | hge
      · obtain ⟨i, hi, ha⟩ := (hw.tile a).mpr ⟨h₁, hlt⟩
        exact ⟨i, by omega, (hold i hi a).mpr ha⟩
      · exact ⟨dynCount m, by omega, (hnew a).mpr ⟨hge, h₂⟩⟩

theorem addInBounds_of_accepts {m : Mem} {f : UInt32} {d : DynData} (hw : WfTable m)
    (hfit : d.bytes.length < 2 ^ 16) (h : dynAccepts m f d.claimed) :
    AddInBounds m (kphMsgDynAdd m f d) := by
  have hclaimed : d.claimed = d.bytes.length := by
    rw [d.claimed_eq, Nat.mod_eq_of_lt hfit]
  obtain ⟨hcount, hsize, -⟩ := addLog_fields h
  have hwf := wfTable_add hw h
  have hadd := add_of_accepts h
  obtain ⟨-, hv, hc, -, hr⟩ := h
  simp only [sizeofMessage, dynEntriesMax] at hr hc
  rw [hadd]
  refine ⟨?_, fun _ a => ?_, fun _ => hcount, fun _ => hwf, fun _ => ?_⟩
  · intro a ha
    rw [written_addLog] at ha
    simp only [sizeofMessage, entryAddr] at ha ⊢
    omega
  · simp only
    rw [written_addLog, hsize, hclaimed]
    simp only [entryAddr]
    omega
  · simp only
    rw [hsize, sizeofMessage]
    exact hr

theorem addInBounds_of_not_accepts {m : Mem} {f : UInt32} {d : DynData}
    (h : ¬ dynAccepts m f d.claimed) : AddInBounds m (kphMsgDynAdd m f d) := by
  obtain ⟨status, hs, hadd⟩ := add_of_not_accepts h
  have hne : status ≠ statusSuccess := by
    rintro rfl
    exact absurd hs (by decide)
  rw [hadd]
  exact ⟨fun a ha => absurd ha (written_nil a), fun h' => absurd h' hne,
    fun h' => absurd h' hne, fun h' => absurd h' hne, fun h' => absurd h' hne⟩

/-- An accepted add of 65536 bytes or more writes the byte behind the
message: the copy starts inside it and is longer than it. -/
theorem written_past_message {m : Mem} {f : UInt32} {d : DynData}
    (hlong : 2 ^ 16 ≤ d.bytes.length) (h : dynAccepts m f d.claimed) :
    written (kphMsgDynAdd m f d).2 sizeofMessage := by
  have hadd := add_of_accepts h
  obtain ⟨-, hv, -⟩ := h
  obtain ⟨-, hs⟩ := validate_size hv
  rw [hadd, written_addLog]
  simp only [sizeofMessage]
  omega

/-- An add writes in bounds and keeps the table well-formed exactly when its
byte count fits a `USHORT` or the message refuses it. -/
theorem dynAdd_in_bounds_iff {m : Mem} {f : UInt32} {d : DynData} (hw : WfTable m) :
    AddInBounds m (kphMsgDynAdd m f d) ↔
      (d.fitsUShort ∨ ¬ dynAccepts m f d.claimed) := by
  rw [DynData.fitsUShort_iff]
  constructor
  · intro h
    by_contra hcon
    rw [not_or, not_not, Nat.not_lt] at hcon
    exact absurd (h.inside _ (written_past_message hcon.1 hcon.2)) (Nat.lt_irrefl _)
  · intro h
    by_cases hacc : dynAccepts m f d.claimed
    · exact addInBounds_of_accepts hw (h.resolve_right (not_not.mpr hacc)) hacc
    · exact addInBounds_of_not_accepts hacc

theorem wfTable_blank : WfTable blankMessage := by
  have hcount : dynCount blankMessage = 0 := by decide +kernel
  have hsize : headerSize blankMessage = messageMinSize := by decide +kernel
  refine ⟨by rw [hcount]; decide, fun i j hi => ?_, fun a => ?_⟩
  · rw [hcount] at hi
    exact absurd hi (Nat.not_lt_zero _)
  · rw [hcount, hsize]
    exact ⟨fun ⟨i, hi, _⟩ => absurd hi (Nat.not_lt_zero _), fun h => by omega⟩

def shortString : CountedBytes := ⟨[65, 0], by decide⟩

theorem dynAdd_in_bounds_iff_short :
    ntSuccess (kphMsgValidate blankMessage) = true ∧ WfTable blankMessage ∧
    (AddInBounds blankMessage (kphMsgDynAdd blankMessage 1 (.unicodeString shortString)) ↔
      ((DynData.unicodeString shortString).fitsUShort ∨
        ¬ dynAccepts blankMessage 1 (DynData.unicodeString shortString).claimed)) :=
  ⟨by decide +kernel, wfTable_blank, dynAdd_in_bounds_iff wfTable_blank⟩

def longTrace : KphmStackTrace := ⟨List.replicate 8192 0, by rw [List.length_replicate]; decide⟩

/-- Adding 8192 frames to a blank message claims no byte, succeeds, and writes
past the end of the message. -/
theorem dynAdd_out_of_bounds :
    ¬ (∀ m f d, ntSuccess (kphMsgValidate m) = true → WfTable m →
        AddInBounds m (kphMsgDynAdd m f d)) := by
  intro h
  have hframes : longTrace.frames.length = 8192 := List.length_replicate
  have hlong : 2 ^ 16 ≤ (DynData.stackTrace longTrace).bytes.length := by
    rw [DynData.bytes, KphmStackTrace.length_bytes, hframes]
    decide
  have hclaimed : (DynData.stackTrace longTrace).claimed = 0 := by
    rw [DynData.claimed, hframes]
    rfl
  have hacc : dynAccepts blankMessage 1 (DynData.stackTrace longTrace).claimed := by
    rw [hclaimed]
    decide +kernel
  have hin := (h blankMessage 1 (.stackTrace longTrace) (by decide +kernel)
    wfTable_blank).inside _ (written_past_message hlong hacc)
  exact absurd hin (Nat.lt_irrefl _)

end SystemInformer.KphLib
