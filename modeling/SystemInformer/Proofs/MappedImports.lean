import SystemInformer.PhLib.MappedImports
import SystemInformer.Proofs.MappedImage

/-!
# What the import tables are read for

A scan is told by the record that ends the table: `EndsAt` says which one it is and that the probe
of every record up to it succeeded. `countRecords` gives the number of that record, modulo
`2 ^ 32`, and what it reads of a record is in the view if what is compared with zero there is. For
descriptors and thunks the probe covers that; for delay import descriptors it does not, and the
condition under which nothing is read behind the view is a condition on the records that are come
to.

A record that was passed lies in the view as a whole, whatever was probed of it: the next one does
not begin before its end.
-/

namespace SystemInformer.PhLib

open Bytes

namespace RecordLayout

variable (layout : RecordLayout) (view : ImageView) (m : Mem)

def at_ (table k : Nat) : Nat := ptrAddOffset table (k * layout.stride)

def Ends (a : Nat) : Prop := ∀ f ∈ layout.terminator, field m (a + f.1) f.2 = 0

instance (a : Nat) : Decidable (layout.Ends m a) :=
  inferInstanceAs (Decidable (∀ f ∈ layout.terminator, field m (a + f.1) f.2 = 0))

def Passed (table k : Nat) : Prop :=
  ∀ j < k, view.Holds (layout.at_ table j) layout.probed ∧ ¬ layout.Ends m (layout.at_ table j)

structure EndsAt (table k : Nat) : Prop where
  passed : layout.Passed view m table k
  held : view.Holds (layout.at_ table k) layout.probed
  ends : layout.Ends m (layout.at_ table k)

end RecordLayout

section

variable {layout : RecordLayout} {view : ImageView} {m : Mem} {table a i j k n : Nat}

theorem ImageView.holds_mono {b l : Nat} (h : view.Holds a n) (hlo : a ≤ b)
    (hhi : b + l ≤ a + n) : view.Holds b l := by
  have := h.1
  have := h.2
  exact ⟨by omega, by omega⟩

theorem val_allZero (fields : List (Nat × Nat)) :
    (allZero a fields).val m = .ok (decide (∀ f ∈ fields, field m (a + f.1) f.2 = 0)) := by
  induction fields with
  | nil => simp [allZero]
  | cons f fields ih =>
      rw [allZero, val_record_bind, Checked.val_ite, ih]
      by_cases hzero : field m (a + f.1) f.2 = 0
      · simp [hzero]
      · simp [hzero]

theorem val_allZero_terminator :
    (allZero a layout.terminator).val m = .ok (decide (layout.Ends m a)) := val_allZero _

theorem countRecords_eq (view : ImageView) (layout : RecordLayout) (a i : Nat) :
    countRecords view layout a i =
      if view.Probes a layout.probed then do
        if ← allZero a layout.terminator then pure i
        else countRecords view layout (ptrAddOffset a layout.stride) ((i + 1) % 2 ^ 32)
      else Checked.fail statusAccessViolation := by
  rw [countRecords]
  rfl

namespace RecordLayout

theorem probes_iff : view.Probes a layout.probed ↔ view.Holds a layout.probed := by
  have hle := layout.probed_le
  exact ImageView.probes_iff layout.probed_pos (by omega)

theorem at_zero (ha : a < 2 ^ 64) : layout.at_ a 0 = a := by
  rw [at_, ptrAddOffset, Nat.zero_mul, Nat.add_zero, Nat.mod_eq_of_lt ha]

theorem at_next (k : Nat) :
    layout.at_ (ptrAddOffset a layout.stride) k = layout.at_ a (k + 1) := by
  rw [at_, at_, ptrAddOffset, ptrAddOffset, ptrAddOffset, Nat.mod_add_mod, Nat.succ_mul,
    Nat.add_assoc, Nat.add_comm layout.stride]

theorem at_succ (k : Nat) :
    layout.at_ a (k + 1) = ptrAddOffset (layout.at_ a k) layout.stride := by
  rw [at_, at_, ptrAddOffset, ptrAddOffset, ptrAddOffset, Nat.mod_add_mod, Nat.succ_mul,
    Nat.add_assoc]

theorem passed_succ_iff (ha : a < 2 ^ 64) :
    layout.Passed view m a (k + 1) ↔ (view.Holds a layout.probed ∧ ¬ layout.Ends m a) ∧
      layout.Passed view m (ptrAddOffset a layout.stride) k := by
  simp only [Passed, at_next]
  rw [Nat.forall_lt_succ_left, at_zero ha]

theorem endsAt_zero_iff (ha : a < 2 ^ 64) :
    layout.EndsAt view m a 0 ↔ view.Holds a layout.probed ∧ layout.Ends m a := by
  constructor
  · intro h
    have hzero : layout.at_ a 0 = a := at_zero ha
    rw [← hzero]
    exact ⟨h.held, h.ends⟩
  · intro h
    refine ⟨fun j hj => absurd hj (Nat.not_lt_zero j), ?_, ?_⟩
    · rw [at_zero ha]
      exact h.1
    · rw [at_zero ha]
      exact h.2

theorem endsAt_succ_iff (ha : a < 2 ^ 64) :
    layout.EndsAt view m a (k + 1) ↔ (view.Holds a layout.probed ∧ ¬ layout.Ends m a) ∧
      layout.EndsAt view m (ptrAddOffset a layout.stride) k := by
  constructor
  · intro h
    obtain ⟨hfirst, hrest⟩ := (passed_succ_iff ha).mp h.passed
    refine ⟨hfirst, hrest, ?_, ?_⟩
    · rw [at_next]
      exact h.held
    · rw [at_next]
      exact h.ends
  · rintro ⟨hfirst, h⟩
    refine ⟨(passed_succ_iff ha).mpr ⟨hfirst, h.passed⟩, ?_, ?_⟩
    · rw [← at_next]
      exact h.held
    · rw [← at_next]
      exact h.ends

theorem Passed.not_ends (h : layout.Passed view m a k) (hj : j < k) :
    ¬ layout.Ends m (layout.at_ a j) := (h j hj).2

theorem EndsAt.unique (h : layout.EndsAt view m a j) (h' : layout.EndsAt view m a k) :
    j = k := by
  rcases Nat.lt_trichotomy j k with hlt | rfl | hlt
  · exact absurd h.ends (h'.passed.not_ends hlt)
  · rfl
  · exact absurd h'.ends (h.passed.not_ends hlt)

theorem Passed.holds (h : layout.Passed view m a k)
    (hheld : view.Holds (layout.at_ a k) layout.probed) (hj : j < k) :
    view.Holds (layout.at_ a j) layout.stride := by
  have hbase := view.base_le
  have hle := layout.stride_le
  obtain ⟨hlo, hhi⟩ := (h j hj).1
  obtain ⟨hlo', hhi'⟩ : view.Holds (layout.at_ a (j + 1)) layout.probed := by
    rcases Nat.lt_or_ge (j + 1) k with hlt | hge
    · exact (h (j + 1) hlt).1
    · rw [show j + 1 = k by omega]
      exact hheld
  rw [at_succ, ptrAddOffset] at hlo' hhi'
  refine ⟨hlo, ?_⟩
  rcases Nat.lt_or_ge (layout.at_ a j + layout.stride) (2 ^ 64) with hlt | hge
  · rw [Nat.mod_eq_of_lt hlt] at hhi'
    omega
  · have hfits := view.fits
    rw [Nat.mod_eq_sub_mod hge, Nat.mod_eq_of_lt (by omega)] at hlo'
    omega

end RecordLayout

/-! ## The scans -/

theorem val_countRecords_iff (ha : a < 2 ^ 64) (hi : i < 2 ^ 32) :
    (countRecords view layout a i).val m = .ok n ↔
      ∃ k, layout.EndsAt view m a k ∧ n = (i + k) % 2 ^ 32 := by
  induction a, i using countRecords.induct view layout with
  | case1 a i hprobe ih =>
      have hheld := RecordLayout.probes_iff.mp hprobe
      rw [countRecords_eq, if_pos hprobe, Checked.val_bind_ok val_allZero_terminator, Checked.val_ite]
      by_cases hends : layout.Ends m a
      · rw [if_pos (decide_eq_true hends)]
        constructor
        · intro h
          obtain rfl : i = n := Except.ok.inj h
          exact ⟨0, (RecordLayout.endsAt_zero_iff ha).mpr ⟨hheld, hends⟩,
            (Nat.mod_eq_of_lt hi).symm⟩
        · rintro ⟨k, hk, rfl⟩
          obtain rfl := hk.unique ((RecordLayout.endsAt_zero_iff ha).mpr ⟨hheld, hends⟩)
          rw [Nat.add_zero, Nat.mod_eq_of_lt hi]
          rfl
      · rw [if_neg fun h => hends (of_decide_eq_true h), ih (ptrAddOffset_lt _ _) (Nat.mod_lt _ (by omega))]
        constructor
        · rintro ⟨k, hk, rfl⟩
          refine ⟨k + 1, (RecordLayout.endsAt_succ_iff ha).mpr ⟨⟨hheld, hends⟩, hk⟩, ?_⟩
          rw [Nat.mod_add_mod, Nat.add_assoc, Nat.add_comm 1 k]
        · rintro ⟨k, hk, rfl⟩
          cases k with
          | zero => exact absurd ((RecordLayout.endsAt_zero_iff ha).mp hk).2 hends
          | succ k =>
              refine ⟨k, ((RecordLayout.endsAt_succ_iff ha).mp hk).2, ?_⟩
              rw [Nat.mod_add_mod, Nat.add_assoc, Nat.add_comm 1 k]
  | case2 a i hprobe =>
      have hheld := RecordLayout.probes_iff.not.mp hprobe
      rw [countRecords_eq, if_neg hprobe, Checked.val_fail]
      refine iff_of_false (fun h => nomatch h) ?_
      rintro ⟨k, hk, -⟩
      cases k with
      | zero => exact hheld ((RecordLayout.endsAt_zero_iff ha).mp hk).1
      | succ k => exact hheld ((RecordLayout.endsAt_succ_iff ha).mp hk).1.1

theorem safe_countRecords_iff (ha : a < 2 ^ 64) :
    (countRecords view layout a i).Safe view.Allows m ↔
      ∀ k, layout.Passed view m a k → view.Holds (layout.at_ a k) layout.probed →
        (allZero (layout.at_ a k) layout.terminator).Safe view.Allows m := by
  induction a, i using countRecords.induct view layout with
  | case1 a i hprobe ih =>
      have hheld := RecordLayout.probes_iff.mp hprobe
      rw [countRecords_eq, if_pos hprobe, Checked.safe_bind_iff, val_allZero_terminator]
      have hrest : (∀ b, Except.ok (decide (layout.Ends m a)) =
          (Except.ok b : Except NtStatus Bool) →
          (if b = true then pure i else countRecords view layout (ptrAddOffset a layout.stride)
            ((i + 1) % 2 ^ 32)).Safe view.Allows m) ↔
          (¬ layout.Ends m a → ∀ k, layout.Passed view m (ptrAddOffset a layout.stride) k →
            view.Holds (layout.at_ a (k + 1)) layout.probed →
            (allZero (layout.at_ a (k + 1)) layout.terminator).Safe view.Allows m) := by
        constructor
        · intro h hends
          have hnext := h false (congrArg Except.ok (decide_eq_false hends))
          rw [if_neg Bool.false_ne_true, ih (ptrAddOffset_lt _ _)] at hnext
          simpa only [RecordLayout.at_next] using hnext
        · rintro h b hb
          obtain rfl := Except.ok.inj hb
          refine Checked.Safe.ite (fun _ => Checked.safe_pure i) fun hfalse => ?_
          rw [ih (ptrAddOffset_lt _ _)]
          simpa only [RecordLayout.at_next] using
            h fun hends => hfalse (decide_eq_true hends)
      rw [hrest]
      constructor
      · rintro ⟨hfirst, hnext⟩ k hpassed hk
        cases k with
        | zero =>
            rw [RecordLayout.at_zero ha]
            exact hfirst
        | succ k =>
            obtain ⟨⟨-, hends⟩, hpassed⟩ := (RecordLayout.passed_succ_iff ha).mp hpassed
            exact hnext hends k hpassed hk
      · intro h
        refine ⟨?_, fun hends k hpassed hk =>
          h (k + 1) ((RecordLayout.passed_succ_iff ha).mpr ⟨⟨hheld, hends⟩, hpassed⟩) hk⟩
        have hzero : layout.at_ a 0 = a := RecordLayout.at_zero ha
        rw [← hzero]
        refine h 0 (fun j hj => absurd hj (Nat.not_lt_zero j)) ?_
        rw [RecordLayout.at_zero ha]
        exact hheld
  | case2 a i hprobe =>
      have hheld := RecordLayout.probes_iff.not.mp hprobe
      rw [countRecords_eq, if_neg hprobe]
      refine iff_of_true (Checked.safe_fail _) fun k hpassed hk => ?_
      cases k with
      | zero =>
          rw [RecordLayout.at_zero ha] at hk
          exact absurd hk hheld
      | succ k => exact absurd ((RecordLayout.passed_succ_iff ha).mp hpassed).1.1 hheld

/-! ## What the fields of a record are read from -/

variable {image : PhMappedImage} {delayImports : Bool} {directory descriptor : Nat}

theorem safe_allZero {fields : List (Nat × Nat)}
    (h : ∀ f ∈ fields, view.Holds (a + f.1) f.2) : (allZero a fields).Safe view.Allows m := by
  induction fields with
  | nil => exact Checked.safe_pure true
  | cons f fields ih =>
      rw [allZero, safe_record_bind_iff]
      refine ⟨h f List.mem_cons_self, ?_⟩
      exact Checked.Safe.ite (fun _ => ih fun g hg => h g (List.mem_cons_of_mem f hg))
        fun _ => Checked.safe_pure false

/-- What the scan of the delay import descriptors reads of one is in the view. -/
def DelayDescriptorRead (view : ImageView) (m : Mem) (descriptor : Nat) : Prop :=
  view.Holds descriptor 16 ∧ (field m (descriptor + 12) 4 = 0 → view.Holds descriptor 20)

theorem safe_delayDescriptor_iff (h : view.Holds a imageDelayloadDescriptor.probed) :
    (allZero a imageDelayloadDescriptor.terminator).Safe view.Allows m ↔
      DelayDescriptorRead view m a := by
  have hfirst : view.Holds (a + 12) 4 ↔ view.Holds a 16 :=
    ⟨fun hf => ⟨h.1, hf.2⟩, fun hf => ⟨Nat.le_add_right_of_le h.1, hf.2⟩⟩
  have hsecond : view.Holds (a + 16) 4 ↔ view.Holds a 20 :=
    ⟨fun hf => ⟨h.1, hf.2⟩, fun hf => ⟨Nat.le_add_right_of_le h.1, hf.2⟩⟩
  have hterminator : imageDelayloadDescriptor.terminator = [(12, 4), (16, 4)] := rfl
  rw [hterminator, allZero, safe_record_bind_iff, hfirst, DelayDescriptorRead, ← hsecond]
  by_cases hzero : field m (a + 12) 4 = 0
  · rw [if_pos hzero, allZero, safe_record_bind_iff]
    exact and_congr_right fun _ => ⟨fun h _ => h.1, fun h => ⟨h hzero,
      Checked.Safe.ite (fun _ => Checked.safe_pure true) fun _ => Checked.safe_pure false⟩⟩
  · simp [hzero]

theorem safe_importDescriptor (h : view.Holds a imageImportDescriptor.probed) :
    (allZero a imageImportDescriptor.terminator).Safe view.Allows m := by
  refine safe_allZero fun f hf => ?_
  obtain rfl | rfl : f = (0, 4) ∨ f = (16, 4) := by simpa [imageImportDescriptor] using hf
  · exact ImageView.holds_mono h (by omega) (by simp [imageImportDescriptor])
  · exact ImageView.holds_mono h (by omega) (by simp [imageImportDescriptor])

theorem safe_imageThunkData (h : view.Holds a (imageThunkData image).probed) :
    (allZero a (imageThunkData image).terminator).Safe view.Allows m := by
  refine safe_allZero fun f hf => ?_
  rw [imageThunkData] at h hf
  split at hf
  · next hmagic =>
      rw [if_pos hmagic] at h
      obtain rfl : f = (0, 4) := by simpa [imageThunkData32] using hf
      exact h
  · next hmagic =>
      rw [if_neg hmagic] at h
      obtain rfl : f = (0, 8) := by simpa [imageThunkData64] using hf
      exact h

theorem stride_le_importDescriptor : 20 ≤ (importDescriptor delayImports).stride := by
  cases delayImports with
  | false => exact Nat.le_refl 20
  | true => exact Nat.le_of_ble_eq_true rfl

@[simp] theorem safe_delayPointer (rvaBased : Bool) (value : Nat) :
    (delayPointer image rvaBased value).Safe view.Allows m :=
  Checked.Safe.ite (fun _ => safe_phMappedImageRvaToVa _) fun _ => safe_phMappedImageVaToVa _

theorem safe_rvaBased (h : view.Holds descriptor 20) :
    (rvaBased descriptor).Safe view.Allows m := by
  rw [rvaBased, safe_record_bind_iff]
  exact ⟨ImageView.holds_mono h (by omega) (by omega), Checked.safe_pure _⟩

/-- Nothing but fields of the first 20 bytes of a descriptor is read to find the tables of a
DLL. -/
theorem safe_importDllPointers (h : view.Holds descriptor 20) :
    (importDllPointers image delayImports descriptor).Safe view.Allows m := by
  have hfield : ∀ offset, offset + 4 ≤ 20 → view.Holds (descriptor + offset) 4 :=
    fun offset ho => ImageView.holds_mono h (by omega) (by omega)
  refine Checked.Safe.ite (fun _ => ?_) fun _ => ?_
  · rw [safe_record_bind_iff]
    refine ⟨hfield 12 (by omega), (safe_phMappedImageRvaToVa _).bind fun name _ => ?_⟩
    rw [Checked.safe_require_bind_iff, safe_record_bind_iff]
    refine fun _ => ⟨hfield 0 (by omega), Checked.Safe.ite (fun _ => ?_) fun _ => ?_⟩
    · exact (safe_phMappedImageRvaToVa _).bind fun _ _ => Checked.safe_pure _
    · rw [safe_record_bind_iff]
      exact ⟨hfield 16 (by omega),
        (safe_phMappedImageRvaToVa _).bind fun _ _ => Checked.safe_pure _⟩
  · refine (safe_rvaBased h).bind fun based _ => ?_
    rw [safe_record_bind_iff]
    refine ⟨hfield 4 (by omega), (safe_delayPointer _ _).bind fun name _ => ?_⟩
    rw [Checked.safe_require_bind_iff, safe_record_bind_iff]
    exact fun _ => ⟨hfield 16 (by omega),
      (safe_delayPointer _ _).bind fun _ _ => Checked.safe_pure _⟩

theorem delayPointer_lt {based : Bool} {value : Nat}
    (h : (delayPointer image based value).val m = .ok a) : a < 2 ^ 64 := by
  rw [delayPointer] at h
  split at h
  · exact phMappedImageRvaToVa_lt h
  · exact phMappedImageVaToVa_lt h

theorem importDllPointers_lt {pointers : Nat × Nat}
    (h : (importDllPointers image delayImports descriptor).val m = .ok pointers) :
    pointers.2 < 2 ^ 64 := by
  rw [importDllPointers] at h
  split at h
  · rw [val_record_bind] at h
    obtain ⟨name, -, h⟩ := Checked.val_bind_ok_iff.mp h
    rw [Checked.val_require_bind] at h
    split at h
    · rw [val_record_bind] at h
      split at h
      · obtain ⟨lookup, hlookup, h⟩ := Checked.val_bind_ok_iff.mp h
        obtain rfl := Except.ok.inj h
        exact phMappedImageRvaToVa_lt hlookup
      · rw [val_record_bind] at h
        obtain ⟨lookup, hlookup, h⟩ := Checked.val_bind_ok_iff.mp h
        obtain rfl := Except.ok.inj h
        exact phMappedImageRvaToVa_lt hlookup
    · cases h
  · obtain ⟨based, -, h⟩ := Checked.val_bind_ok_iff.mp h
    rw [val_record_bind] at h
    obtain ⟨name, -, h⟩ := Checked.val_bind_ok_iff.mp h
    rw [Checked.val_require_bind] at h
    split at h
    · rw [val_record_bind] at h
      obtain ⟨lookup, hlookup, h⟩ := Checked.val_bind_ok_iff.mp h
      obtain rfl := Except.ok.inj h
      exact delayPointer_lt hlookup
    · cases h

theorem importTable_lt (h : (importTable image directory).val m = .ok table) :
    table < 2 ^ 64 := by
  obtain ⟨entry, -, h⟩ := Checked.val_bind_ok_iff.mp h
  rw [val_header_bind] at h
  obtain ⟨descriptor, hdescriptor, h⟩ := Checked.val_bind_ok_iff.mp h
  rw [Checked.val_require_bind] at h
  split at h
  · obtain rfl := Except.ok.inj h
    exact phMappedImageRvaToVa_lt hdescriptor
  · cases h

theorem safe_importTable : (importTable image directory).Safe view.Allows m := by
  simp [importTable, Checked.safe_bind_iff]

/-! ## What is reported -/

/-- The table ends behind `n` records, which lie in the view. -/
structure Counted (view : ImageView) (m : Mem) (layout : RecordLayout) (table n : Nat) : Prop where
  ends : layout.Ends m (layout.at_ table n)
  records : ∀ j < n,
    ¬ layout.Ends m (layout.at_ table j) ∧ view.Holds (layout.at_ table j) layout.stride

theorem counted_iff (ha : table < 2 ^ 64)
    (h : (countRecords view layout table 0).val m = .ok n) :
    Counted view m layout table n ↔ ∀ k, layout.EndsAt view m table k → k < 2 ^ 32 := by
  obtain ⟨k, hk, rfl⟩ := (val_countRecords_iff ha (by omega)).mp h
  rw [Nat.zero_add]
  constructor
  · intro hcounted k' hk'
    obtain rfl := hk'.unique hk
    by_contra hge
    exact hk.passed.not_ends (by omega) hcounted.ends
  · intro hlt
    rw [Nat.mod_eq_of_lt (hlt k hk)]
    exact ⟨hk.ends, fun j hj => ⟨hk.passed.not_ends hj, hk.passed.holds hk.held hj⟩⟩

/-- What is expected of one of the two functions and of what its result is handed to: records are
read in the view only, and the numbers are those of the records before the last. -/
structure ImportsMeet (m : Mem) (image : PhMappedImage)
    (imports : ImageReader PhMappedImageImports) : Prop where
  safe : imports.Safe image.view.Allows m
  counted : ∀ i, imports.val m = .ok i →
    Counted image.view m (importDescriptor i.delayImports) i.descriptorTable i.numberOfDlls
  dllSafe : ∀ i index, imports.val m = .ok i →
    (phGetMappedImageImportDll i index).Safe image.view.Allows m
  dllCounted : ∀ i index dll, imports.val m = .ok i →
    (phGetMappedImageImportDll i index).val m = .ok dll →
      Counted image.view m (imageThunkData image) dll.lookupTable dll.numberOfEntries
  entrySafe : ∀ i index dll entry, imports.val m = .ok i →
    (phGetMappedImageImportDll i index).val m = .ok dll →
      (phGetMappedImageImportEntry dll entry).Safe image.view.Allows m

/-- The scan of a table of delay imports comes to no descriptor that it reads behind the view, and
none of the tables has `2 ^ 32` records or more. -/
structure ImportsFit (m : Mem) (image : PhMappedImage) (delayImports : Bool) (table : Nat) :
    Prop where
  read : delayImports = true → ∀ k, imageDelayloadDescriptor.Passed image.view m table k →
    image.view.Holds (imageDelayloadDescriptor.at_ table k) 8 →
      DelayDescriptorRead image.view m (imageDelayloadDescriptor.at_ table k)
  dlls : ∀ k, (importDescriptor delayImports).EndsAt image.view m table k → k < 2 ^ 32
  entries : ∀ k, (importDescriptor delayImports).EndsAt image.view m table k → ∀ j < k,
    ∀ name lookupTable, (importDllPointers image delayImports
        ((importDescriptor delayImports).at_ table j)).val m = .ok (name, lookupTable) →
      lookupTable ≠ 0 →
      ∀ n, (imageThunkData image).EndsAt image.view m lookupTable n → n < 2 ^ 32

theorem val_getMappedImageImports_iff {i : PhMappedImageImports} :
    (getMappedImageImports image delayImports directory).val m = .ok i ↔
      ∃ table, (importTable image directory).val m = .ok table ∧
        ∃ n, (countRecords image.view (importDescriptor delayImports) table 0).val m = .ok n ∧
          ⟨image, delayImports, n, table⟩ = i := by
  simp only [getMappedImageImports, Checked.val_bind_ok_iff, Checked.val_pure, Except.ok.injEq]

theorem val_phGetMappedImageImportDll_iff {i : PhMappedImageImports} {index : Nat}
    {dll : PhMappedImageImportDll}
    (hmagic : i.mappedImage.magic = imageNtOptionalHdr32Magic ∨
      i.mappedImage.magic = imageNtOptionalHdr64Magic) :
    (phGetMappedImageImportDll i index).val m = .ok dll ↔
      index < i.numberOfDlls ∧ ∃ pointers, (importDllPointers i.mappedImage i.delayImports
          ((importDescriptor i.delayImports).at_ i.descriptorTable index)).val m =
            .ok pointers ∧ pointers.2 ≠ 0 ∧
        ∃ n, (countRecords i.mappedImage.view (imageThunkData i.mappedImage)
            pointers.2 0).val m = .ok n ∧
          ⟨i.mappedImage, i.delayImports, n, pointers.1,
            (importDescriptor i.delayImports).at_ i.descriptorTable index, pointers.2⟩ = dll := by
  rw [phGetMappedImageImportDll, Checked.val_require_bind]
  by_cases hindex : index < i.numberOfDlls
  · rw [if_pos (Nat.not_le.mpr hindex), Checked.val_bind_ok_iff]
    simp only [Checked.val_require_bind, if_pos hmagic, hindex, true_and]
    refine exists_congr fun pointers => and_congr_right fun _ => ?_
    by_cases hnull : pointers.2 = 0
    · simp [hnull]
    · rw [if_pos hnull, Checked.val_bind_ok_iff]
      simp only [Checked.val_pure, Except.ok.injEq, hnull, ne_eq, not_false_eq_true, true_and]
      rfl
  · rw [if_neg (not_not.mpr (Nat.not_lt.mp hindex))]
    simp [hindex]

theorem safe_countImports_iff (ha : table < 2 ^ 64) :
    (countRecords image.view (importDescriptor delayImports) table 0).Safe image.view.Allows m ↔
      (delayImports = true → ∀ k, imageDelayloadDescriptor.Passed image.view m table k →
        image.view.Holds (imageDelayloadDescriptor.at_ table k) 8 →
          DelayDescriptorRead image.view m (imageDelayloadDescriptor.at_ table k)) := by
  rw [safe_countRecords_iff ha]
  cases delayImports with
  | false =>
      refine iff_of_true (fun k _ hk => safe_importDescriptor hk) fun h => nomatch h
  | true =>
      constructor
      · intro h _ k hpassed hk
        exact (safe_delayDescriptor_iff hk).mp (h k hpassed hk)
      · intro h k hpassed hk
        exact (safe_delayDescriptor_iff hk).mpr (h rfl k hpassed hk)

theorem safe_countThunks (ha : table < 2 ^ 64) :
    (countRecords image.view (imageThunkData image) table 0).Safe image.view.Allows m :=
  (safe_countRecords_iff ha).mpr fun _ _ hk => safe_imageThunkData hk

/-- What the two functions report is right, and what follows stays in the view, if nothing is read
behind the view and no table is too long for its counter. -/
theorem importsMeet_iff (hmagic : image.magic = imageNtOptionalHdr32Magic ∨
    image.magic = imageNtOptionalHdr64Magic) :
    ImportsMeet m image (getMappedImageImports image delayImports directory) ↔
      ∀ table, (importTable image directory).val m = .ok table →
        ImportsFit m image delayImports table := by
  constructor
  · intro h table htable
    have ha := importTable_lt htable
    have hreport : ∀ k, (importDescriptor delayImports).EndsAt image.view m table k →
        (getMappedImageImports image delayImports directory).val m =
          .ok ⟨image, delayImports, k % 2 ^ 32, table⟩ := fun k hk =>
      val_getMappedImageImports_iff.mpr ⟨table, htable, k % 2 ^ 32,
        (val_countRecords_iff ha (by omega)).mpr ⟨k, hk, by rw [Nat.zero_add]⟩, rfl⟩
    have hdlls : ∀ k, (importDescriptor delayImports).EndsAt image.view m table k →
        k < 2 ^ 32 := fun k hk =>
      (counted_iff ha ((val_countRecords_iff ha (by omega)).mpr
        ⟨k, hk, by rw [Nat.zero_add]⟩)).mp (h.counted _ (hreport k hk)) k hk
    refine ⟨?_, hdlls, ?_⟩
    · exact (safe_countImports_iff ha).mp ((Checked.safe_bind_iff.mp
        ((Checked.safe_bind_iff.mp h.safe).2 table htable)).1)
    · intro k hk j hj name lookupTable hpointers hnull n hn
      have hb := importDllPointers_lt hpointers
      have hcount : (countRecords image.view (imageThunkData image) lookupTable 0).val m =
          .ok (n % 2 ^ 32) :=
        (val_countRecords_iff hb (by omega)).mpr ⟨n, hn, by rw [Nat.zero_add]⟩
      have hindex : j < k % 2 ^ 32 := by
        rw [Nat.mod_eq_of_lt (hdlls k hk)]
        exact hj
      have hdll := h.dllCounted _ j _ (hreport k hk)
        ((val_phGetMappedImageImportDll_iff hmagic).mpr
          ⟨hindex, (name, lookupTable), hpointers, hnull, n % 2 ^ 32, hcount, rfl⟩)
      exact (counted_iff hb hcount).mp hdll n hn
  · intro h
    have hresult : ∀ i, (getMappedImageImports image delayImports directory).val m = .ok i →
        i.mappedImage = image ∧ i.delayImports = delayImports ∧ ∃ table,
          i.descriptorTable = table ∧ ImportsFit m image delayImports table ∧
          Counted image.view m (importDescriptor delayImports) table i.numberOfDlls ∧
          (importDescriptor delayImports).EndsAt image.view m table i.numberOfDlls := by
      intro i hi
      obtain ⟨table, htable, n, hn, rfl⟩ := val_getMappedImageImports_iff.mp hi
      have ha := importTable_lt htable
      have hfit := h table htable
      obtain ⟨k, hk, hkn⟩ := (val_countRecords_iff ha (by omega)).mp hn
      rw [Nat.zero_add, Nat.mod_eq_of_lt (hfit.dlls k hk)] at hkn
      refine ⟨rfl, rfl, table, rfl, hfit, (counted_iff ha hn).mpr hfit.dlls, ?_⟩
      show (importDescriptor delayImports).EndsAt image.view m table n
      rw [hkn]
      exact hk
    have hdll : ∀ i index dll,
        (getMappedImageImports image delayImports directory).val m = .ok i →
        (phGetMappedImageImportDll i index).val m = .ok dll →
          dll.mappedImage = image ∧ image.view.Holds dll.descriptor 20 ∧
          Counted image.view m (imageThunkData image) dll.lookupTable dll.numberOfEntries := by
      intro i index dll hi hval
      obtain ⟨rfl, rfl, table, rfl, hfit, hcounted, hends⟩ := hresult i hi
      obtain ⟨hindex, ⟨name, lookupTable⟩, hpointers, hnull, n, hn, rfl⟩ :=
        (val_phGetMappedImageImportDll_iff hmagic).mp hval
      refine ⟨rfl, ImageView.holds_mono (hcounted.records index hindex).2 (Nat.le_refl _)
        (Nat.add_le_add_left stride_le_importDescriptor _), ?_⟩
      exact (counted_iff (importDllPointers_lt hpointers) hn).mpr
        (hfit.entries _ hends index hindex name lookupTable hpointers hnull)
    refine ⟨?_, ?_, ?_, fun i index dll hi hval => (hdll i index dll hi hval).2.2, ?_⟩
    · refine Checked.Safe.bind safe_importTable fun table htable => ?_
      refine Checked.Safe.bind ?_ fun _ _ => Checked.safe_pure _
      exact (safe_countImports_iff (importTable_lt htable)).mpr (h table htable).read
    · intro i hi
      obtain ⟨-, rfl, table, rfl, -, hcounted, -⟩ := hresult i hi
      exact hcounted
    · intro i index hi
      obtain ⟨rfl, rfl, table, rfl, -, hcounted, -⟩ := hresult i hi
      rw [phGetMappedImageImportDll, Checked.safe_require_bind_iff]
      intro hindex
      have hheld := (hcounted.records index (Nat.not_le.mp hindex)).2
      have hpointers := @safe_importDllPointers i.mappedImage.view m i.mappedImage i.delayImports
        ((importDescriptor i.delayImports).at_ i.descriptorTable index)
        (ImageView.holds_mono hheld (Nat.le_refl _)
          (Nat.add_le_add_left stride_le_importDescriptor _))
      refine hpointers.bind fun pointers hval => ?_
      rw [Checked.safe_require_bind_iff, Checked.safe_require_bind_iff]
      exact fun _ _ => (safe_countThunks (importDllPointers_lt hval)).bind
        fun _ _ => Checked.safe_pure _
    · intro i index dll entry hi hval
      obtain ⟨rfl, hdescriptor, hcounted⟩ := hdll i index dll hi hval
      rw [phGetMappedImageImportEntry, Checked.safe_require_bind_iff,
        Checked.safe_require_bind_iff]
      intro hentry _
      rw [safe_record_bind_iff]
      refine ⟨(hcounted.records entry (Nat.not_le.mp hentry)).2, ?_⟩
      refine Checked.Safe.ite (fun _ => Checked.safe_pure _) fun _ => ?_
      refine Checked.Safe.bind ?_ fun pointer _ => ?_
      · refine Checked.Safe.ite (fun _ => ?_) fun _ => safe_phMappedImageRvaToVa _
        exact (safe_rvaBased hdescriptor).bind fun _ _ => safe_delayPointer _ _
      · rw [Checked.safe_require_bind_iff]
        refine fun _ => Checked.Safe.bind (safe_phMappedImageProbe _ _) fun _ hprobe => ?_
        rw [val_phMappedImageProbe (by decide) (by decide)] at hprobe
        split at hprobe
        · next hheld =>
            rw [safe_record_bind_iff]
            exact ⟨ImageView.holds_mono hheld (Nat.le_refl _)
              (Nat.add_le_add_left (by decide) _), Checked.safe_pure _⟩
        · cases hprobe

theorem phGetMappedImageImports_meet_iff (image : AcceptedImage m) :
    ImportsMeet m image.toPhMappedImage (phGetMappedImageImports image.toPhMappedImage) ∧
        ImportsMeet m image.toPhMappedImage (phGetMappedImageDelayImports image.toPhMappedImage) ↔
      (∀ table, (importTable image.toPhMappedImage imageDirectoryEntryImport).val m = .ok table →
        ImportsFit m image.toPhMappedImage false table) ∧
      ∀ table, (importTable image.toPhMappedImage imageDirectoryEntryDelayImport).val m =
          .ok table → ImportsFit m image.toPhMappedImage true table :=
  and_congr (importsMeet_iff image.checked.magic_cases)
    (importsMeet_iff image.checked.magic_cases)

end

/-- A file that ends eight bytes into its first delay import descriptor. -/
def delayCut : Mem := fileMem (smallHeaders imageNtOptionalHdr32Magic 13 64 64)

def delayCutImage : AcceptedImage delayCut where
  toPhMappedImage := smallImage imageNtOptionalHdr32Magic 360 (by omega)
  accepted := by decide +kernel

theorem phGetMappedImageDelayImports_strays :
    ¬ (ImportsMeet delayCut delayCutImage.toPhMappedImage
        (phGetMappedImageImports delayCutImage.toPhMappedImage) ∧
      ImportsMeet delayCut delayCutImage.toPhMappedImage
        (phGetMappedImageDelayImports delayCutImage.toPhMappedImage)) := by
  rintro ⟨-, h⟩
  have htable : (importTable delayCutImage.toPhMappedImage
      imageDirectoryEntryDelayImport).val delayCut = .ok 0x10160 := by decide +kernel
  have hscan := (Checked.safe_bind_iff.mp ((Checked.safe_bind_iff.mp h.safe).2 _ htable)).1
  obtain ⟨hread, -⟩ := (safe_countImports_iff (by omega)).mp hscan rfl 0
    (fun j hj => absurd hj (Nat.not_lt_zero j)) (by decide +kernel)
  exact absurd hread (by decide +kernel)

end SystemInformer.PhLib
