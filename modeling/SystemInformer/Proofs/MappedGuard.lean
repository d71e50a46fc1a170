import SystemInformer.PhLib.MappedGuard
import SystemInformer.Proofs.MappedImage

/-!
# Where the guard tables lie

The probe of a table is right when its size is: a product that does not leave 64 bits is that of
the entries, and every entry is in the view. When it does, the entries run over the end of the
view, since two entries that follow each other are less than 20 bytes apart and there is no room
to step over the end of the address space. So a table with entries is inside the view exactly if
the product is not reduced; the hash of an XFG entry is a matter of its RVA alone.
-/

namespace SystemInformer.PhLib

open Bytes

variable {m : Mem} {image : PhMappedImage} {layout : LoadConfigLayout} {view : ImageView}

/-- What `PhMappedImageVaToVa` gives. -/
def vaOf (m : Mem) (image : PhMappedImage) (va : Nat) : Nat :=
  match (phMappedImageVaToVa image va).val m with
  | .ok a => a
  | .error _ => 0

theorem val_vaOf (va : Nat) : (phMappedImageVaToVa image va).val m = .ok (vaOf m image va) := by
  obtain ⟨a, ha⟩ := @exists_phMappedImageVaToVa image m va
  rw [vaOf, ha]

theorem vaOf_lt (va : Nat) : vaOf m image va < 2 ^ 64 := phMappedImageVaToVa_lt (val_vaOf va)

def guardTableOf (m : Mem) (image : PhMappedImage) (layout : LoadConfigLayout) (config : Nat)
    (offsets : Nat × Nat) : GuardTable :=
  ⟨vaOf m image (field m (config + offsets.1) layout.fieldSize),
    field m (config + offsets.2) layout.fieldSize⟩

theorem val_guardTableAt (config : Nat) (offsets : Nat × Nat) :
    (guardTableAt image layout config offsets).val m =
      .ok (guardTableOf m image layout config offsets) := by
  rw [guardTableAt, val_record_bind, val_record_bind, Checked.val_bind_ok (val_vaOf _)]
  rfl

/-! ## A table and its probe -/

def TableProbed (image : PhMappedImage) (entrySize : Nat) (table : GuardTable) : Prop :=
  table.table ≠ 0 → table.numberOfEntries ≠ 0 →
    image.view.Probes table.table (entrySize * table.numberOfEntries % 2 ^ 64)

theorem probed_of_ok {entrySize : Nat} {table : GuardTable}
    (h : (probeGuardTable image entrySize table).val m = .ok ()) :
    TableProbed image entrySize table := by
  intro htable hentries
  rw [probeGuardTable, if_pos ⟨htable, hentries⟩, phMappedImageProbe, Checked.val_require] at h
  split at h
  · next hprobe => exact hprobe
  · cases h

theorem TableProbed.holds {entrySize : Nat} {table : GuardTable}
    (h : TableProbed image entrySize table) (htable : table.table ≠ 0)
    (hentries : table.numberOfEntries ≠ 0) (hsize : 0 < entrySize)
    (hlt : entrySize * table.numberOfEntries < 2 ^ 64) :
    image.view.Holds table.table (entrySize * table.numberOfEntries) := by
  have hprobe := h htable hentries
  rw [Nat.mod_eq_of_lt hlt] at hprobe
  exact (ImageView.probes_iff (Nat.mul_pos hsize (Nat.pos_of_ne_zero hentries)) hlt).mp hprobe

/-- The table has the size that is probed, and its XFG entries point behind a hash in the file. -/
structure GuardTableFits (m : Mem) (image : PhMappedImage) (entrySize : Nat) (table : GuardTable) :
    Prop where
  product : entrySize * table.numberOfEntries < 2 ^ 64
  xfg : 4 < entrySize → ∀ i < table.numberOfEntries,
    xfg (field m (table.table + i * entrySize + 4) 1) = true →
      8 ≤ field m (table.table + i * entrySize) 4 ∧
        field m (table.table + i * entrySize) 4 ≤ image.view.size

theorem holds_xfgHash_iff {rva : Nat} (hrva : rva < 2 ^ 32) :
    view.Holds (ptrAddOffset (ptrAddOffset view.base rva) (2 ^ 64 - 8)) 8 ↔
      8 ≤ rva ∧ rva ≤ view.size := by
  have hbase := view.base_le
  have hfits := view.fits
  rw [ImageView.Holds, ptrAddOffset, ptrAddOffset, Nat.mod_add_mod]
  rcases Nat.lt_or_ge (view.base + rva) (2 ^ 64 + 8) with h | h
  · rw [Nat.mod_eq_sub_mod (by omega), Nat.mod_eq_of_lt (by omega)]
    omega
  · rw [Nat.mod_eq_sub_mod (by omega), Nat.mod_eq_sub_mod (by omega), Nat.mod_eq_of_lt (by omega)]
    omega

theorem safe_readCfgEntry_iff {entrySize entry : Nat} :
    (readCfgEntry image entrySize entry).Safe image.view.Allows m ↔
      image.view.Holds entry 4 ∧ (4 < entrySize → image.view.Holds (entry + 4) 1 ∧
        (xfg (field m (entry + 4) 1) = true →
          8 ≤ field m entry 4 ∧ field m entry 4 ≤ image.view.size)) := by
  have hrva : field m entry 4 < 2 ^ 32 := field_lt m entry 4
  rw [readCfgEntry, safe_record_bind_iff]
  refine and_congr_right fun _ => ?_
  by_cases hsize : 4 < entrySize
  · rw [if_pos hsize, safe_record_bind_iff, forall_prop_of_true hsize]
    refine and_congr_right fun _ => ?_
    by_cases hxfg : xfg (field m (entry + 4) 1) = true
    · rw [if_pos hxfg, safe_record_bind_iff, forall_prop_of_true hxfg, holds_xfgHash_iff hrva]
      exact and_iff_left (Checked.safe_pure _)
    · rw [if_neg hxfg]
      exact iff_of_true (Checked.safe_pure _) fun h => absurd h hxfg
  · rw [if_neg hsize]
    exact iff_of_true (Checked.safe_pure _) fun h => absurd h hsize

theorem entry_eq {table i entrySize : Nat} (h : table + i * entrySize < 2 ^ 64) :
    ptrAddOffset table (i * entrySize % 2 ^ 64) = table + i * entrySize := by
  rw [ptrAddOffset, Nat.add_mod_mod, Nat.mod_eq_of_lt h]

theorem safe_entries_iff {entrySize : Nat} {table : GuardTable} (hsize : 4 ≤ entrySize)
    (hle : entrySize < 20) (htable : table.table ≠ 0) (hentries : table.numberOfEntries ≠ 0)
    (h : TableProbed image entrySize table) (hlt : table.table < 2 ^ 64) :
    (∀ i < table.numberOfEntries, (readCfgEntry image entrySize
        (ptrAddOffset table.table (i * entrySize % 2 ^ 64))).Safe image.view.Allows m) ↔
      GuardTableFits m image entrySize table := by
  have hfits := image.view.fits
  obtain ⟨a, n⟩ := table
  dsimp only at *
  constructor
  · intro hsafe
    obtain ⟨hlo, hhi⟩ : image.view.Holds a 4 := by
      have hfirst := (safe_readCfgEntry_iff.mp (hsafe 0 (Nat.pos_of_ne_zero hentries))).1
      rwa [entry_eq (by omega), Nat.zero_mul, Nat.add_zero] at hfirst
    have hproduct : entrySize * n < 2 ^ 64 := by
      by_contra hge
      -- The first entry that does not begin in the view.
      generalize hi : (image.view.base + image.view.size - a) / entrySize + 1 = i
      have hover : image.view.base + image.view.size - a < i * entrySize := by
        rw [← hi, Nat.mul_comm]
        exact Nat.lt_mul_div_succ _ (by omega)
      have hnear : i * entrySize ≤ image.view.base + image.view.size - a + entrySize := by
        rw [← hi, Nat.succ_mul]
        exact Nat.add_le_add_right (Nat.div_mul_le_self _ _) _
      have hin : i < n := by
        refine Nat.lt_of_mul_lt_mul_right (a := entrySize) ?_
        rw [Nat.mul_comm n]
        omega
      have hentry := (safe_readCfgEntry_iff.mp (hsafe i hin)).1.2
      rw [entry_eq (by omega)] at hentry
      omega
    have hheld := h.holds htable hentries (by omega) hproduct
    refine ⟨hproduct, fun hflags i hi hxfg => ?_⟩
    have hend : i * entrySize + entrySize ≤ entrySize * n := by
      rw [← Nat.succ_mul, Nat.mul_comm entrySize]
      exact Nat.mul_le_mul_right entrySize hi
    have hentry := safe_readCfgEntry_iff.mp (hsafe i hi)
    rw [entry_eq (by have := hheld.2; dsimp only at this; omega)] at hentry
    exact (hentry.2 hflags).2 hxfg
  · rintro ⟨hproduct, hxfg⟩ i hi
    obtain ⟨hlo, hhi⟩ := h.holds htable hentries (by omega) hproduct
    dsimp only at hlo hhi
    have hend : i * entrySize + entrySize ≤ entrySize * n := by
      rw [← Nat.succ_mul, Nat.mul_comm entrySize]
      exact Nat.mul_le_mul_right entrySize hi
    rw [entry_eq (by omega), safe_readCfgEntry_iff]
    exact ⟨⟨by omega, by omega⟩, fun hflags => ⟨⟨by omega, by omega⟩, hxfg hflags i hi⟩⟩

/-! ## The tables of a configuration -/

/-- The table of a `CFG_ENTRY_TYPE`, as the load configuration gives it. -/
def guardTableField (m : Mem) (image : PhMappedImage) (layout : LoadConfigLayout) (config : Nat) :
    Nat → Option GuardTable
  | 0 => some (guardTableOf m image layout config layout.guardCFFunctionTable)
  | 1 => some (optionalTableOf layout.guardAddressTakenIatEntryTable)
  | 2 => some (optionalTableOf layout.guardLongJumpTargetTable)
  | _ => none
where
  /-- Null where the load configuration is too short for the field. -/
  optionalTableOf (offsets : Nat × Nat) : GuardTable :=
    if rtlContainsField config (field m config 4) offsets.1 layout.fieldSize then
      guardTableOf m image layout config offsets
    else ⟨0, 0⟩

theorem optionalGuardTable_of_ok {config entrySize : Nat} {offsets : Nat × Nat}
    {table : GuardTable}
    (h : (optionalGuardTable image layout config (field m config 4) entrySize offsets).val m =
      .ok table) :
    guardTableField.optionalTableOf m image layout config offsets = table ∧
      TableProbed image entrySize table := by
  rw [optionalGuardTable] at h
  rw [guardTableField.optionalTableOf]
  split at h
  · next hcontains =>
      rw [Checked.val_bind_ok (val_guardTableAt _ _)] at h
      obtain ⟨_, hprobe, h⟩ := Checked.val_bind_ok_iff.mp h
      obtain rfl := Except.ok.inj h
      exact ⟨if_pos hcontains, probed_of_ok hprobe⟩
  · next hcontains =>
      obtain rfl := Except.ok.inj h
      exact ⟨if_neg hcontains, fun hnull => absurd rfl hnull⟩

theorem getMappedImageCfg_of_ok {config : PhMappedImageCfg}
    (h : (getMappedImageCfg layout image).val m = .ok config) :
    ∃ c, (phpGetMappedImageLoadConfig image layout).val m = .ok c ∧
      config.mappedImage = image ∧
      config.entrySize = guardEntrySize (field m (c + layout.guardFlags) 4) ∧
      ∀ type, config.guardTable type = guardTableField m image layout c type ∧
        ∀ table, config.guardTable type = some table →
          TableProbed image config.entrySize table := by
  rw [getMappedImageCfg] at h
  obtain ⟨c, hc, h⟩ := Checked.val_bind_ok_iff.mp h
  rw [val_record_bind] at h
  obtain ⟨-, h⟩ := Checked.val_require_bind_ok_iff.mp h
  rw [val_record_bind, Checked.val_bind_ok (val_guardTableAt _ _)] at h
  obtain ⟨_, hfunctions, h⟩ := Checked.val_bind_ok_iff.mp h
  obtain ⟨iat, hiat, h⟩ := Checked.val_bind_ok_iff.mp h
  obtain ⟨longJump, hlongJump, h⟩ := Checked.val_bind_ok_iff.mp h
  obtain rfl := Except.ok.inj h
  obtain ⟨heq₁, hprobed₁⟩ := optionalGuardTable_of_ok hiat
  obtain ⟨heq₂, hprobed₂⟩ := optionalGuardTable_of_ok hlongJump
  refine ⟨c, hc, rfl, rfl, fun type => ?_⟩
  match type with
  | 0 => exact ⟨rfl, fun table htable => Option.some.inj htable ▸ probed_of_ok hfunctions⟩
  | 1 => exact ⟨congrArg some heq₁.symm, fun table htable => Option.some.inj htable ▸ hprobed₁⟩
  | 2 => exact ⟨congrArg some heq₂.symm, fun table htable => Option.some.inj htable ▸ hprobed₂⟩
  | _ + 3 => exact ⟨rfl, fun table htable => nomatch htable⟩

theorem guardTableField_lt {config type : Nat} {table : GuardTable}
    (h : guardTableField m image layout config type = some table) : table.table < 2 ^ 64 := by
  have hoptional : ∀ offsets,
      (guardTableField.optionalTableOf m image layout config offsets).table < 2 ^ 64 := by
    intro offsets
    rw [guardTableField.optionalTableOf]
    split
    · exact vaOf_lt _
    · exact Nat.two_pow_pos 64
  match type with
  | 0 => exact Option.some.inj h ▸ vaOf_lt _
  | 1 => exact Option.some.inj h ▸ hoptional _
  | 2 => exact Option.some.inj h ▸ hoptional _
  | _ + 3 => exact nomatch h

theorem guardEntrySize_bounds (guardFlags : Nat) :
    4 ≤ guardEntrySize guardFlags ∧ guardEntrySize guardFlags < 20 := by
  rw [guardEntrySize]
  omega

theorem exists_readCfgEntry (entrySize entry : Nat) :
    ∃ e, (readCfgEntry image entrySize entry).val m = .ok e := by
  rw [readCfgEntry, val_record_bind]
  split
  · rw [val_record_bind]
    split
    · exact ⟨_, rfl⟩
    · exact ⟨_, rfl⟩
  · exact ⟨_, rfl⟩

theorem val_phGetMappedImageCfgEntry_iff {config : PhMappedImageCfg} {index type : Nat} :
    (∃ e, (phGetMappedImageCfgEntry config index type).val m = .ok e) ↔
      ∃ table, config.guardTable type = some table ∧ table.table ≠ 0 ∧
        index < table.numberOfEntries := by
  rw [phGetMappedImageCfgEntry]
  cases htable : config.guardTable type with
  | none => simp
  | some table =>
      simp only [Checked.val_require_bind_ok_iff, exists_and_left, Option.some.injEq,
        exists_eq_left', not_or, not_le]
      exact and_iff_left (exists_readCfgEntry _ _)

/-! ## Both claims -/

def loadConfigLayout (image : PhMappedImage) : LoadConfigLayout :=
  if image.magic = imageNtOptionalHdr32Magic then imageLoadConfigDirectory32
  else imageLoadConfigDirectory64

theorem phGetMappedImageCfg_eq :
    phGetMappedImageCfg image = getMappedImageCfg (loadConfigLayout image) image := by
  rw [phGetMappedImageCfg, loadConfigLayout]
  split
  · rfl
  · rfl

theorem phGetMappedImageEhCont_eq :
    phGetMappedImageEhCont image = getMappedImageEhCont (loadConfigLayout image) image := by
  rw [phGetMappedImageEhCont, loadConfigLayout]
  split
  · rfl
  · rfl

/-- What is read for an entry is in the view, and so is the table of continuations. -/
structure GuardTablesMeet (m : Mem) (image : PhMappedImage) : Prop where
  cfg : ∀ config, (phGetMappedImageCfg image).val m = .ok config → ∀ type index entry,
    (phGetMappedImageCfgEntry config index type).val m = .ok entry →
      (phGetMappedImageCfgEntry config index type).Safe image.view.Allows m
  ehCont : ∀ config, (phGetMappedImageEhCont image).val m = .ok config →
    config.ehCont.numberOfEntries ≠ 0 →
      image.view.Holds config.ehCont.table (config.ehCont.numberOfEntries * config.entrySize)

/-- The tables that the load configuration gives fit, where the two functions succeed. -/
structure GuardTablesFit (m : Mem) (image : PhMappedImage) : Prop where
  cfg : (∃ config, (phGetMappedImageCfg image).val m = .ok config) →
    ∀ c, (phpGetMappedImageLoadConfig image (loadConfigLayout image)).val m = .ok c →
    ∀ type table, guardTableField m image (loadConfigLayout image) c type = some table →
      table.table ≠ 0 → table.numberOfEntries ≠ 0 →
      GuardTableFits m image (guardEntrySize (field m (c + (loadConfigLayout image).guardFlags) 4))
        table
  ehCont : (∃ config, (phGetMappedImageEhCont image).val m = .ok config) →
    ∀ c, (phpGetMappedImageLoadConfig image (loadConfigLayout image)).val m = .ok c →
    ∀ table, guardTableOf m image (loadConfigLayout image) c
        (loadConfigLayout image).guardEHContinuationTable = table →
      table.numberOfEntries ≠ 0 → table.table ≠ 0 ∧
        guardEntrySize (field m (c + (loadConfigLayout image).guardFlags) 4) *
          table.numberOfEntries < 2 ^ 64

theorem phGetMappedImageCfgEntry_inside_iff {config : PhMappedImageCfg}
    (h : (phGetMappedImageCfg image).val m = .ok config) :
    (∀ type index entry, (phGetMappedImageCfgEntry config index type).val m = .ok entry →
        (phGetMappedImageCfgEntry config index type).Safe image.view.Allows m) ↔
      ∀ c, (phpGetMappedImageLoadConfig image (loadConfigLayout image)).val m = .ok c →
      ∀ type table, guardTableField m image (loadConfigLayout image) c type = some table →
        table.table ≠ 0 → table.numberOfEntries ≠ 0 →
        GuardTableFits m image
          (guardEntrySize (field m (c + (loadConfigLayout image).guardFlags) 4)) table := by
  rw [phGetMappedImageCfg_eq] at h
  obtain ⟨c, hc, rfl, hsize, htables⟩ := getMappedImageCfg_of_ok h
  obtain ⟨hmin, hmax⟩ := guardEntrySize_bounds
    (field m (c + (loadConfigLayout config.mappedImage).guardFlags) 4)
  rw [← hsize] at hmin hmax
  have hentries : ∀ type table,
      guardTableField m config.mappedImage (loadConfigLayout config.mappedImage) c type =
        some table → table.table ≠ 0 → table.numberOfEntries ≠ 0 →
      ((∀ index entry, (phGetMappedImageCfgEntry config index type).val m = .ok entry →
          (phGetMappedImageCfgEntry config index type).Safe config.mappedImage.view.Allows m) ↔
        GuardTableFits m config.mappedImage config.entrySize table) := by
    intro type table htable hnull hsome
    have hconfig := (htables type).1.trans htable
    rw [← safe_entries_iff hmin hmax hnull hsome ((htables type).2 table hconfig)
      (guardTableField_lt htable)]
    refine forall_congr' fun index => ?_
    have hsafe : (phGetMappedImageCfgEntry config index type).Safe
          config.mappedImage.view.Allows m ↔
        (index < table.numberOfEntries → (readCfgEntry config.mappedImage config.entrySize
          (ptrAddOffset table.table (index * config.entrySize % 2 ^ 64))).Safe
            config.mappedImage.view.Allows m) := by
      rw [phGetMappedImageCfgEntry, hconfig]
      simp only [Checked.safe_require_bind_iff, not_or, not_le, hnull, not_false_eq_true, true_and]
    rw [hsafe]
    constructor
    · intro hread hindex
      obtain ⟨entry, hentry⟩ := (val_phGetMappedImageCfgEntry_iff (m := m)).mpr
        ⟨table, hconfig, hnull, hindex⟩
      exact hread entry hentry hindex
    · intro hread entry _ hindex
      exact hread hindex
  constructor
  · intro hread c' hc' type table htable hnull hsome
    obtain rfl := Except.ok.inj (hc'.symm.trans hc)
    rw [← hsize]
    exact (hentries type table htable hnull hsome).mp (hread type)
  · intro hfits type index entry hval
    obtain ⟨table, htable, hnull, hindex⟩ := val_phGetMappedImageCfgEntry_iff.mp ⟨entry, hval⟩
    have hfield := (htables type).1.symm.trans htable
    have hsome : table.numberOfEntries ≠ 0 := by omega
    have hfit := hfits c hc type table hfield hnull hsome
    rw [← hsize] at hfit
    exact (hentries type table hfield hnull hsome).mpr hfit index entry hval

theorem phGetMappedImageEhCont_inside_iff {config : PhMappedImageEhCont}
    (h : (phGetMappedImageEhCont image).val m = .ok config) :
    (config.ehCont.numberOfEntries ≠ 0 → image.view.Holds config.ehCont.table
        (config.ehCont.numberOfEntries * config.entrySize)) ↔
      ∀ c, (phpGetMappedImageLoadConfig image (loadConfigLayout image)).val m = .ok c →
      ∀ table, guardTableOf m image (loadConfigLayout image) c
          (loadConfigLayout image).guardEHContinuationTable = table →
        table.numberOfEntries ≠ 0 → table.table ≠ 0 ∧
          guardEntrySize (field m (c + (loadConfigLayout image).guardFlags) 4) *
            table.numberOfEntries < 2 ^ 64 := by
  have hbase := image.view.base_le
  have hfits := image.view.fits
  rw [phGetMappedImageEhCont_eq, getMappedImageEhCont] at h
  obtain ⟨c, hc, h⟩ := Checked.val_bind_ok_iff.mp h
  rw [val_record_bind] at h
  obtain ⟨-, h⟩ := Checked.val_require_bind_ok_iff.mp h
  rw [Checked.val_bind_ok (val_guardTableAt _ _), val_record_bind] at h
  obtain ⟨_, hprobe, h⟩ := Checked.val_bind_ok_iff.mp h
  obtain rfl := Except.ok.inj h
  have hprobed := probed_of_ok hprobe
  obtain ⟨hmin, -⟩ := guardEntrySize_bounds
    (field m (c + (loadConfigLayout image).guardFlags) 4)
  dsimp only
  constructor
  · rintro hheld c' hc' table rfl hsome
    obtain rfl := Except.ok.inj (hc'.symm.trans hc)
    obtain ⟨hlo, hhi⟩ := hheld hsome
    refine ⟨by omega, ?_⟩
    rw [Nat.mul_comm]
    omega
  · intro hfit hsome
    obtain ⟨hnull, hlt⟩ := hfit c hc _ rfl hsome
    rw [Nat.mul_comm]
    exact hprobed.holds hnull hsome (by omega) hlt

theorem phGetMappedImageGuard_meets_iff (image : AcceptedImage m) :
    GuardTablesMeet m image.toPhMappedImage ↔ GuardTablesFit m image.toPhMappedImage := by
  constructor
  · intro h
    refine ⟨?_, ?_⟩
    · rintro ⟨config, hconfig⟩
      exact (phGetMappedImageCfgEntry_inside_iff hconfig).mp (h.cfg config hconfig)
    · rintro ⟨config, hconfig⟩
      exact (phGetMappedImageEhCont_inside_iff hconfig).mp (h.ehCont config hconfig)
  · intro h
    exact ⟨fun config hconfig =>
        (phGetMappedImageCfgEntry_inside_iff hconfig).mpr (h.cfg ⟨config, hconfig⟩),
      fun config hconfig =>
        (phGetMappedImageEhCont_inside_iff hconfig).mpr (h.ehCont ⟨config, hconfig⟩)⟩

/-- A file whose table of functions has `2 ^ 62` entries of four bytes. -/
def guardWrap : Mem := fileMem (smallHeaders imageNtOptionalHdr64Magic 10 320 320 ++
  [(368, 4, 320), (368 + 128, 8, 0x1000), (368 + 136, 8, 2 ^ 62)])

def guardWrapImage : AcceptedImage guardWrap where
  toPhMappedImage := smallImage imageNtOptionalHdr64Magic 688 (by omega)
  accepted := by decide

theorem phGetMappedImageCfgEntry_strays :
    ¬ GuardTablesMeet guardWrap guardWrapImage.toPhMappedImage := by
  intro h
  obtain ⟨config, hconfig⟩ :
      ∃ config, (phGetMappedImageCfg guardWrapImage.toPhMappedImage).val guardWrap = .ok config :=
    ⟨⟨guardWrapImage.toPhMappedImage, 4, false, false, false, false, false, false, false, false,
      false, ⟨0x10170, 2 ^ 62⟩, ⟨0, 0⟩, ⟨0, 0⟩⟩, by decide⟩
  have hfit := (phGetMappedImageCfgEntry_inside_iff hconfig).mp (h.cfg config hconfig) 0x10170
    (by decide) 0 ⟨0x10170, 2 ^ 62⟩ (by decide) (by decide) (by decide)
  exact absurd hfit.product (by decide)

end SystemInformer.PhLib
