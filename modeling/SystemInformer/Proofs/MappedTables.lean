import SystemInformer.PhLib.MappedTables
import SystemInformer.Proofs.MappedRelocations

/-!
# Numbers of entries

For each of the functions that copy a table: how many entries the array has, beside the number that
is returned. TLS callbacks are copied as often as they were counted, and the relocations of a
directory cannot be `2 ^ 32` or more. The other functions copy fewer entries than they have counted
when the copying loop is left early or passes an entry over, and in the case of the resources when
the number does not fit.
-/

namespace SystemInformer.PhLib

open Bytes

variable {m : Mem} {image : PhMappedImage} {view : ImageView}

/-! ## Debug directory -/

theorem exists_debugEntry (item : Nat) : ∃ entry, (debugEntry item).val m = .ok entry :=
  ⟨_, rfl⟩

theorem val_debugEntries (directory left i : Nat) :
    ∃ entries, (debugEntries view directory left i).val m = .ok entries ∧ entries.length ≤ left ∧
      (entries.length = left ↔
        ∀ j < left, view.Holds (debugItem directory (i + j)) sizeofImageDebugDirectory) := by
  induction left generalizing i with
  | zero => exact ⟨[], rfl, Nat.le_refl 0, by simp⟩
  | succ left ih =>
      rw [debugEntries]
      by_cases hprobe : view.Probes (debugItem directory i) sizeofImageDebugDirectory
      · obtain ⟨entry, hentry⟩ := @exists_debugEntry m (debugItem directory i)
        obtain ⟨entries, hentries, hle, hiff⟩ := ih (i + 1)
        have hheld := (ImageView.probes_iff (by decide) (by decide)).mp hprobe
        rw [if_pos hprobe, Checked.val_bind_ok hentry, Checked.val_bind_ok hentries]
        refine ⟨entry :: entries, rfl, Nat.succ_le_succ hle, ?_⟩
        rw [List.length_cons, Nat.succ_inj, hiff, Nat.forall_lt_succ_left]
        constructor
        · intro h
          exact ⟨hheld, fun j hj => Nat.add_right_comm i 1 j ▸ h j hj⟩
        · intro h j hj
          rw [Nat.add_right_comm]
          exact h.2 j hj
      · rw [if_neg hprobe]
        refine ⟨[], rfl, Nat.zero_le _, iff_of_false (Nat.succ_ne_zero left).symm fun h => ?_⟩
        exact hprobe ((ImageView.probes_iff (by decide) (by decide)).mpr
          (h 0 (Nat.succ_pos left)))

theorem phGetMappedImageDebug_iff {directory : Nat × Nat}
    (h : (debugDirectory image statusInvalidParameter).val m = .ok directory) :
    (∀ r, (phGetMappedImageDebug image).val m = .ok r → r.numberOfEntries = r.entries.length) ↔
      ∀ i < directory.2, image.view.Holds (debugItem directory.1 i) sizeofImageDebugDirectory := by
  obtain ⟨entries, hentries, -, hiff⟩ := @val_debugEntries m image.view directory.1 directory.2 0
  simp only [Nat.zero_add] at hiff
  rw [phGetMappedImageDebug, Checked.val_bind_ok h, Checked.val_bind_ok hentries, ← hiff]
  constructor
  · intro hall
    exact (hall _ rfl).symm
  · intro hlength r hr
    obtain rfl := Except.ok.inj hr
    exact hlength.symm

/-! ## POGO data -/

def pogoCopied (m : Mem) (entry : Nat) : Bool :=
  decide (field m entry 4 ≠ 0 ∧ field m (entry + 4) 4 ≠ 0)

theorem walkPogo_some {limit stop rounds entry : Nat} {walked : List Nat}
    (h : walkPogo view m limit stop (rounds + 1) entry = .ok (some walked)) :
    (¬ entry < stop ∧ walked = []) ∨
      (entry < stop ∧ view.Holds entry sizeofImageDebugPogoEntry ∧
        ∃ next rest, nextPogoEntry m limit entry = some next ∧
          walkPogo view m limit stop rounds next = .ok (some rest) ∧ walked = entry :: rest) := by
  rw [walkPogo] at h
  split at h
  · next hlt =>
      split at h
      · next hprobe =>
          refine .inr ⟨hlt, (ImageView.probes_iff (by decide) (by decide)).mp hprobe, ?_⟩
          cases hnext : nextPogoEntry m limit entry with
          | none =>
              rw [hnext] at h
              cases h
          | some next =>
              rw [hnext] at h
              cases hrest : walkPogo view m limit stop rounds next with
              | error status =>
                  simp only [hrest] at h
                  cases h
              | ok rest =>
                  cases rest with
                  | none =>
                      simp only [hrest] at h
                      cases h
                  | some rest =>
                      simp only [hrest] at h
                      exact ⟨next, rest, rfl, hrest, (Option.some.inj (Except.ok.inj h)).symm⟩
      · cases h
  · next hlt => exact .inl ⟨hlt, (Option.some.inj (Except.ok.inj h)).symm⟩

theorem copyPogo_of_walkPogo {limit stop rounds entry : Nat} {walked : List Nat}
    (h : walkPogo view m limit stop rounds entry = .ok (some walked)) :
    ∃ entries, copyPogo m image limit stop rounds entry = some entries ∧
      entries.length = (walked.takeWhile (pogoCopied m)).length := by
  induction rounds generalizing entry walked with
  | zero => cases h
  | succ rounds ih =>
      rw [copyPogo]
      rcases walkPogo_some h with ⟨hend, rfl⟩ | ⟨hlt, -, next, rest, hnext, hrest, rfl⟩
      · rw [if_neg hend]
        exact ⟨[], rfl, rfl⟩
      · rw [if_pos hlt, hnext]
        by_cases hcopied : field m entry 4 ≠ 0 ∧ field m (entry + 4) 4 ≠ 0
        · obtain ⟨entries, hentries, hlength⟩ := ih hrest
          have htrue : pogoCopied m entry = true := decide_eq_true hcopied
          rw [if_pos hcopied, List.takeWhile_cons_of_pos htrue]
          simp only [hentries]
          exact ⟨_, rfl, congrArg (· + 1) hlength⟩
        · have hfalse : ¬ pogoCopied m entry = true := fun h => hcopied (of_decide_eq_true h)
          rw [if_neg hcopied, List.takeWhile_cons_of_neg hfalse]
          exact ⟨[], rfl, rfl⟩

theorem strlen_lt {limit a n : Nat} (h : strlen m limit a = some n) : a + n < 2 ^ 64 := by
  induction limit generalizing a n with
  | zero => cases h
  | succ limit ih =>
      rw [strlen] at h
      split at h
      · cases h
      · next hlt =>
          split at h
          · obtain rfl := Option.some.inj h
            omega
          · cases hrest : strlen m limit (a + 1) with
            | none =>
                rw [hrest] at h
                cases h
            | some k =>
                rw [hrest] at h
                obtain rfl := Option.some.inj h
                have hk := ih hrest
                show a + (k + 1) < 2 ^ 64
                omega

theorem walkPogo_length {limit stop rounds entry : Nat} {walked : List Nat}
    (h : walkPogo view m limit stop rounds entry = .ok (some walked)) :
    walked = [] ∨ (entry < stop ∧ 12 * walked.length ≤ stop - entry + 11) := by
  induction rounds generalizing entry walked with
  | zero => cases h
  | succ rounds ih =>
      rcases walkPogo_some h with ⟨-, rfl⟩ | ⟨hlt, hheld, next, rest, hnext, hrest, rfl⟩
      · exact .inl rfl
      · refine .inr ⟨hlt, ?_⟩
        rw [List.length_cons]
        rcases ih hrest with rfl | ⟨hnextlt, hlength⟩
        · rw [List.length_nil]
          omega
        · -- The next entry is in the view, so its address has not been reduced.
          have hbase := view.base_le
          obtain ⟨n, hn, rfl⟩ := Option.map_eq_some_iff.mp hnext
          have hstrlen := strlen_lt hn
          have hnextheld : view.base ≤ ptrAddOffset entry (alignUp (8 + n + 1) 4) := by
            cases rounds with
            | zero => cases hrest
            | succ rounds =>
                rcases walkPogo_some hrest with ⟨hend, -⟩ | ⟨-, hheld', -⟩
                · exact absurd hnextlt hend
                · exact hheld'.1
          have halign : 12 ≤ alignUp (8 + n + 1) 4 ∧ alignUp (8 + n + 1) 4 ≤ 8 + n + 4 := by
            rw [alignUp]
            omega
          have hmod : ptrAddOffset entry (alignUp (8 + n + 1) 4) =
              entry + alignUp (8 + n + 1) 4 := by
            rw [ptrAddOffset] at hnextheld ⊢
            rcases Nat.lt_or_ge (entry + alignUp (8 + n + 1) 4) (2 ^ 64) with hsmall | hlarge
            · exact Nat.mod_eq_of_lt hsmall
            · rw [Nat.mod_eq_sub_mod hlarge, Nat.mod_eq_of_lt (by omega)] at hnextheld
              omega
          rw [hmod] at hlength hnextlt
          omega

theorem debugEntryByType_length_lt {directory type left i : Nat} {data : Nat × Nat}
    (h : (debugEntryByType image directory type left i).val m = .ok data) : data.1 < 2 ^ 32 := by
  induction left generalizing i with
  | zero => cases h
  | succ left ih =>
      simp only [debugEntryByType, Checked.val_ite] at h
      split at h
      · rw [val_record_bind, Checked.val_ite] at h
        split at h
        · obtain rfl := Except.ok.inj h
          exact field_lt m _ 4
        · exact ih h
      · cases h

theorem pogoExtents_bounds {extents : Nat × Nat} (h : (pogoExtents image).val m = .ok extents) :
    extents.2 < extents.1 + 2 ^ 32 := by
  have hfits := image.view.fits
  rw [Checked.val, pogoExtents] at h
  cases hdata : (phGetMappedImageDebugEntryByType image imageDebugTypePogo).val m with
  | error status =>
      rw [hdata] at h
      cases h
  | ok data =>
      rw [hdata] at h
      obtain ⟨directory, -, hbyType⟩ := Checked.val_bind_ok_iff.mp hdata
      have hlength := debugEntryByType_length_lt hbyType
      obtain ⟨hprobe, h⟩ := Checked.val_require_bind_ok_iff.mp h
      rw [val_record_bind] at h
      obtain ⟨-, h⟩ := Checked.val_require_bind_ok_iff.mp h
      obtain rfl := Except.ok.inj h
      obtain ⟨-, hheld⟩ := (ImageView.probes_iff (by decide) (by decide)).mp hprobe
      have hstop := Nat.mod_le (data.2 + data.1) (2 ^ 64)
      have hfirst : ptrAddOffset data.2 4 = data.2 + 4 := Nat.mod_eq_of_lt (by omega)
      rw [hfirst]
      show (data.2 + data.1) % 2 ^ 64 < data.2 + 4 + 2 ^ 32
      omega

theorem length_takeWhile_eq_iff {α : Type} (p : α → Bool) (l : List α) :
    (l.takeWhile p).length = l.length ↔ ∀ a ∈ l, p a = true := by
  rw [← List.takeWhile_eq_self_iff]
  constructor
  · exact (List.takeWhile_prefix p).eq_of_length
  · intro h
    rw [h]

theorem phGetMappedImagePogo_iff {extents : Nat × Nat} {rounds : Nat} {walked : List Nat}
    (h : (pogoExtents image).val m = .ok extents)
    (hwalked : walkPogo image.view m rounds extents.2 rounds extents.1 = .ok (some walked)) :
    (∀ r, (phGetMappedImagePogo image rounds).val m = .ok (some r) →
        r.numberOfEntries = r.entries.length) ↔
      ∀ entry ∈ walked, field m entry 4 ≠ 0 ∧ field m (entry + 4) 4 ≠ 0 := by
  obtain ⟨entries, hentries, hlength⟩ :
      ∃ entries, copyPogo m image rounds extents.2 rounds extents.1 = some entries ∧
        entries.length = (walked.takeWhile (pogoCopied m)).length := copyPogo_of_walkPogo hwalked
  have hsmall : walked.length < 2 ^ 32 := by
    have hbounds := pogoExtents_bounds h
    rcases walkPogo_length hwalked with rfl | ⟨-, hle⟩
    · exact Nat.two_pow_pos 32
    · omega
  have hall : (∀ entry ∈ walked, field m entry 4 ≠ 0 ∧ field m (entry + 4) 4 ≠ 0) ↔
      (walked.takeWhile (pogoCopied m)).length = walked.length := by
    rw [length_takeWhile_eq_iff]
    simp only [pogoCopied, decide_eq_true_iff]
  have hval : (phGetMappedImagePogo image rounds).val m =
      .ok (some ⟨walked.length % 2 ^ 32, entries⟩) := by
    have hcopied : (.ok (copyPogo m image rounds extents.2 rounds extents.1) :
        Except NtStatus (Option (List PhImageDebugPogoEntry))) = .ok (some entries) :=
      congrArg _ hentries
    rw [phGetMappedImagePogo, Checked.val_bind_ok h, Checked.val_ofMem_bind_ok hwalked]
    exact Checked.val_ofMem_bind_ok
      (f := fun m => .ok (copyPogo m image rounds extents.2 rounds extents.1)) hcopied
  rw [hall, hval, ← hlength]
  constructor
  · intro hreported
    have hcount := hreported _ rfl
    rw [Nat.mod_eq_of_lt hsmall] at hcount
    exact hcount.symm
  · intro hequal r hr
    obtain rfl := Option.some.inj (Except.ok.inj hr)
    show walked.length % 2 ^ 32 = entries.length
    rw [Nat.mod_eq_of_lt hsmall, hequal]

/-! ## Product identifiers -/

theorem xor_eq_right_iff {a k : Nat} : a ^^^ k = k ↔ a = 0 := by
  constructor
  · intro h
    rw [← Nat.xor_zero a, ← Nat.xor_self k, ← Nat.xor_assoc, h]
  · rintro rfl
    exact Nat.zero_xor k

theorem length_prodIdEntries {extents : ProdIdExtents} {left i : Nat}
    (hheld : ∀ j < left, view.Holds (prodIdItem extents (i + j)) sizeofProdItem) :
    (prodIdEntries m view extents left i).length ≤ left ∧
      ((prodIdEntries m view extents left i).length = left ↔
        ∀ j < left, field m (prodIdItem extents (i + j) + 4) 4 ≠ 0) := by
  induction left generalizing i with
  | zero => exact ⟨Nat.le_refl 0, by simp [prodIdEntries]⟩
  | succ left ih =>
      rw [Nat.forall_lt_succ_left] at hheld ⊢
      obtain ⟨hfirst, hrest⟩ := hheld
      have hprobe := (ImageView.probes_iff (by decide) (by decide)).mpr hfirst
      have hshift : ∀ j, i + 1 + j = i + (j + 1) := fun j => by omega
      obtain ⟨hle, hiff⟩ := ih fun j hj => hshift j ▸ hrest j hj
      simp only [hshift] at hiff
      rw [Nat.add_zero] at hprobe ⊢
      rw [prodIdEntries, if_pos hprobe]
      dsimp only
      by_cases hcount : field m (prodIdItem extents i + 4) 4 = 0
      · rw [if_neg (not_not.mpr (xor_eq_right_iff.mpr hcount))]
        exact ⟨Nat.le_succ_of_le hle, iff_of_false (by omega) fun h => h.1 hcount⟩
      · rw [if_pos (fun h => hcount (xor_eq_right_iff.mp h)), List.length_cons, Nat.succ_inj, hiff]
        exact ⟨Nat.succ_le_succ hle, (and_iff_right hcount).symm⟩

theorem prodIdItem_holds {extents : ProdIdExtents}
    (h : (prodIdExtents image).val m = .ok extents) {i : Nat} (hi : i < prodIdCount extents) :
    image.view.Holds (prodIdItem extents i) sizeofProdItem := by
  have hfits := image.view.fits
  rw [prodIdExtents, val_header_bind] at h
  obtain ⟨-, h⟩ := Checked.val_require_bind_ok_iff.mp h
  rw [val_header_bind] at h
  obtain ⟨-, h⟩ := Checked.val_require_bind_ok_iff.mp h
  rw [val_header_bind] at h
  obtain ⟨-, h⟩ := Checked.val_require_bind_ok_iff.mp h
  obtain ⟨checksum, -, h⟩ := Checked.val_bind_ok_iff.mp h
  obtain ⟨-, h⟩ := Checked.val_require_bind_ok_iff.mp h
  rw [val_record_bind, val_record_bind] at h
  obtain ⟨-, h⟩ := Checked.val_require_bind_ok_iff.mp h
  obtain ⟨start, -, h⟩ := Checked.val_bind_ok_iff.mp h
  obtain ⟨hstart, h⟩ := Checked.val_require_bind_ok_iff.mp h
  obtain ⟨hstop, h⟩ := Checked.val_require_bind_ok_iff.mp h
  rw [val_record_bind] at h
  obtain ⟨-, h⟩ := Checked.val_require_bind_ok_iff.mp h
  obtain ⟨-, h⟩ := Checked.val_require_bind_ok_iff.mp h
  obtain rfl := Except.ok.inj h
  obtain ⟨hlo, -⟩ := (ImageView.probes_iff (by decide) (by decide)).mp hstart
  obtain ⟨-, hhi⟩ := (ImageView.probes_iff (by decide) (by decide)).mp hstop
  simp only [prodIdCount, sizeofProdItem] at hi hhi
  have hitem : ptrAddOffset start (i * 8) = start + i * 8 := Nat.mod_eq_of_lt (by omega)
  simp only [prodIdItem, ImageView.Holds, sizeofProdItem, hitem]
  omega

theorem phGetMappedImageProdIdHeader_iff {extents : ProdIdExtents}
    (h : (prodIdExtents image).val m = .ok extents) :
    (∀ r, (phGetMappedImageProdIdHeader image).val m = .ok r →
        r.numberOfEntries = r.entries.length) ↔
      ∀ i < prodIdCount extents % 2 ^ 32, field m (prodIdItem extents i + 4) 4 ≠ 0 := by
  have hheld : ∀ j < prodIdCount extents % 2 ^ 32,
      image.view.Holds (prodIdItem extents (0 + j)) sizeofProdItem := by
    intro j hj
    rw [Nat.zero_add]
    exact prodIdItem_holds h (hj.trans_le (Nat.mod_le _ _))
  have hiff := (length_prodIdEntries (m := m) hheld).2
  simp only [Nat.zero_add] at hiff
  rw [phGetMappedImageProdIdHeader, Checked.val_bind_ok h, ← hiff]
  constructor
  · intro hall
    exact (hall _ rfl).symm
  · intro hlength r hr
    obtain rfl := Except.ok.inj hr
    exact hlength.symm

/-! ## TLS callbacks -/

theorem length_tlsCallbackEntries (array pointer left i : Nat) :
    (tlsCallbackEntries m array pointer left i).length = left := by
  induction left generalizing i with
  | zero => rfl
  | succ left ih => rw [tlsCallbackEntries, List.length_cons, ih]

theorem phGetMappedImageTlsCallbacks_count {rounds : Nat} {r : Reported PhImageTlsCallbackEntry}
    (h : (phGetMappedImageTlsCallbacks image rounds).val m = .ok (some r)) :
    r.numberOfEntries = r.entries.length := by
  obtain ⟨array, -, h⟩ := Checked.val_bind_ok_iff.mp h
  rw [Checked.val_ofMem] at h
  split at h
  · cases h
  · next count hcount =>
      split at h
      · cases h
      · obtain rfl := Option.some.inj (Except.ok.inj h)
        exact (length_tlsCallbackEntries _ _ count 0).symm

/-! ## Resources -/

/-- The entries of the resources: of their types, names and languages. -/
def resourceLeaves (m : Mem) (root : Nat) : List (Nat × Nat × Nat) :=
  (resourceDirectoryEntries m root).flatMap fun type =>
    if dataIsDirectory m type = false then []
    else (resourceDirectoryEntries m (subdirectory m root type)).flatMap fun name =>
      if dataIsDirectory m name = false then []
      else (resourceDirectoryEntries m (subdirectory m root name)).flatMap fun language =>
        if dataIsDirectory m language then [] else [(type, name, language)]

theorem resourceEntries_eq_map (m : Mem) (root : Nat) :
    resourceEntries m root =
      (resourceLeaves m root).map fun l => resourceEntry m root l.1 l.2.1 l.2.2 := by
  simp only [resourceEntries, resourceLeaves, List.map_flatMap, apply_ite (List.map _),
    List.map_nil, List.map_cons]

theorem phGetMappedImageResources_iff {root : Nat}
    (h : (resourceDirectory image).val m = .ok root) :
    (∀ r, (phGetMappedImageResources image).val m = .ok r →
        r.numberOfEntries = r.entries.length) ↔
      (resourceCount m root ≠ 0 → (resourceLeaves m root).length < 2 ^ 32) := by
  have hlength : (resourceEntries m root).length = (resourceLeaves m root).length := by
    rw [resourceEntries_eq_map, List.length_map]
  rw [phGetMappedImageResources, Checked.val_bind_ok h, Checked.val_ofMem, ← hlength]
  split
  · next hzero => exact iff_of_true (fun r hr => nomatch hr) fun hne => absurd hzero hne
  · next hne =>
      constructor
      · intro hall _
        have hcount : (resourceEntries m root).length % 2 ^ 32 = _ := hall _ rfl
        exact hcount ▸ Nat.mod_lt _ (Nat.two_pow_pos 32)
      · intro hlt r hr
        obtain rfl := Except.ok.inj hr
        exact Nat.mod_eq_of_lt (hlt hne)

/-! ## Relocations -/

theorem length_recordsOf {stop first n : Nat} (blockIndex : Nat)
    (h : WalkedBlocks view m stop first n) :
    2 * (recordsOf m blockIndex (blocksFrom m first n)).length + first ≤ blockAt m first n := by
  induction n generalizing first blockIndex with
  | zero => exact Nat.le_of_eq (Nat.zero_add first)
  | succ n ih =>
      obtain ⟨⟨-, hok⟩, hrest⟩ := walkedBlocks_succ_iff.mp h
      have hle := ih (blockIndex + 1) hrest
      have hsize := hok.size
      rw [hok.nextBlock] at hle
      rw [blocksFrom, recordsOf, List.length_append, recordsFrom, List.length_map,
        List.length_range', relocBlock_count, hok.relocationCount, blockAt_succ, hok.nextBlock]
      omega

theorem phGetMappedImageRelocations_count {r : PhMappedImageReloc}
    (h : (phGetMappedImageRelocations image).val m = .ok r) :
    r.numberOfEntries = r.relocationEntries.length := by
  obtain ⟨directory, hdirectory, -⟩ := Checked.val_bind_ok_iff.mp h
  have hstop : directory.2 ≤ directory.1 + (2 ^ 32 - 1) := by
    obtain ⟨dataDirectory, -, h⟩ := Checked.val_bind_ok_iff.mp hdirectory
    rw [val_header_bind] at h
    obtain ⟨first, -, h⟩ := Checked.val_bind_ok_iff.mp h
    obtain ⟨-, h⟩ := Checked.val_require_bind_ok_iff.mp h
    obtain ⟨-, h⟩ := Checked.val_require_bind_ok_iff.mp h
    obtain rfl := Except.ok.inj h
    have hlt := field_lt m (dataDirectory + 4) 4
    have hle := Nat.mod_le (first + field m (dataDirectory + 4) 4) (2 ^ 64)
    show (first + field m (dataDirectory + 4) 4) % 2 ^ 64 ≤ first + (2 ^ 32 - 1)
    omega
  rcases validateBlocks_walks image.view m directory.2 directory.1 with
    ⟨n, hn, hwalked, -⟩ | ⟨status, k, -, hk⟩
  · obtain ⟨r', hr', hlisted, hcount⟩ := val_phGetMappedImageRelocations hdirectory hn hwalked
    obtain rfl := Except.ok.inj (h.symm.trans hr')
    have hlength := length_recordsOf 0 hwalked
    rw [← hlisted, List.length_map] at hlength
    have hlast : blockAt m directory.1 n < directory.1 + 2 ^ 33 := by
      cases n with
      | zero => exact Nat.lt_add_of_pos_right (Nat.two_pow_pos 33)
      | succ n =>
          obtain ⟨hlt, hok⟩ := hwalked n (Nat.lt_succ_self n)
          have hsize := sizeOfBlock_lt m (blockAt m directory.1 n)
          have hnext : blockAt m directory.1 (n + 1) = nextBlock m (blockAt m directory.1 n) :=
            Function.iterate_succ_apply' ..
          rw [hnext, hok.nextBlock]
          omega
    rw [hcount, Nat.mod_eq_of_lt (by omega)]
  · obtain ⟨status', hfails⟩ := phGetMappedImageRelocations_fails_iff.mpr
      (.inr ⟨_, directory, hdirectory, k, hk, rfl⟩)
    cases h.symm.trans hfails

/-! ## All of them -/

/-- The number of entries is that of the array. -/
structure CountsReported (m : Mem) (image : PhMappedImage) : Prop where
  debug : ∀ r, (phGetMappedImageDebug image).val m = .ok r → r.numberOfEntries = r.entries.length
  pogo : ∀ rounds r, (phGetMappedImagePogo image rounds).val m = .ok (some r) →
    r.numberOfEntries = r.entries.length
  prodId : ∀ r, (phGetMappedImageProdIdHeader image).val m = .ok r →
    r.numberOfEntries = r.entries.length
  tlsCallbacks : ∀ rounds r, (phGetMappedImageTlsCallbacks image rounds).val m = .ok (some r) →
    r.numberOfEntries = r.entries.length
  resources : ∀ r, (phGetMappedImageResources image).val m = .ok r →
    r.numberOfEntries = r.entries.length
  relocations : ∀ r, (phGetMappedImageRelocations image).val m = .ok r →
    r.numberOfEntries = r.relocationEntries.length

/-- Nothing that is counted is passed over: the view has all records of the debug directory, the
entries of the POGO data have an RVA and a size, the product identifiers have a count, and the
resources can be counted. -/
structure CountsFit (m : Mem) (image : PhMappedImage) : Prop where
  debug : ∀ directory, (debugDirectory image statusInvalidParameter).val m = .ok directory →
    ∀ i < directory.2, image.view.Holds (debugItem directory.1 i) sizeofImageDebugDirectory
  pogo : ∀ extents, (pogoExtents image).val m = .ok extents → ∀ rounds walked,
    walkPogo image.view m rounds extents.2 rounds extents.1 = .ok (some walked) →
      ∀ entry ∈ walked, field m entry 4 ≠ 0 ∧ field m (entry + 4) 4 ≠ 0
  prodId : ∀ extents, (prodIdExtents image).val m = .ok extents →
    ∀ i < prodIdCount extents % 2 ^ 32, field m (prodIdItem extents i + 4) 4 ≠ 0
  resources : ∀ root, (resourceDirectory image).val m = .ok root →
    resourceCount m root ≠ 0 → (resourceLeaves m root).length < 2 ^ 32

theorem countsReported_of_fit (h : CountsFit m image) : CountsReported m image where
  debug := by
    intro r hr
    obtain ⟨directory, hdirectory, -⟩ := Checked.val_bind_ok_iff.mp hr
    exact (phGetMappedImageDebug_iff hdirectory).mpr (h.debug directory hdirectory) r hr
  pogo := by
    intro rounds r hr
    obtain ⟨extents, hextents, hrest⟩ := Checked.val_bind_ok_iff.mp hr
    obtain ⟨walked, hwalked, hrest⟩ := Checked.val_bind_ok_iff.mp hrest
    cases walked with
    | none => cases hrest
    | some walked =>
        exact (phGetMappedImagePogo_iff hextents hwalked).mpr
          (h.pogo extents hextents rounds walked hwalked) r hr
  prodId := by
    intro r hr
    obtain ⟨extents, hextents, -⟩ := Checked.val_bind_ok_iff.mp hr
    exact (phGetMappedImageProdIdHeader_iff hextents).mpr (h.prodId extents hextents) r hr
  tlsCallbacks := fun rounds r => phGetMappedImageTlsCallbacks_count
  resources := by
    intro r hr
    obtain ⟨root, hroot, -⟩ := Checked.val_bind_ok_iff.mp hr
    exact (phGetMappedImageResources_iff hroot).mpr (h.resources root hroot) r hr
  relocations := fun r => phGetMappedImageRelocations_count

theorem CountsReported.fit (h : CountsReported m image) : CountsFit m image where
  debug := fun _ hdirectory => (phGetMappedImageDebug_iff hdirectory).mp h.debug
  pogo := fun _ hextents rounds _ hwalked =>
    (phGetMappedImagePogo_iff hextents hwalked).mp (h.pogo rounds)
  prodId := fun _ hextents => (phGetMappedImageProdIdHeader_iff hextents).mp h.prodId
  resources := fun _ hroot => (phGetMappedImageResources_iff hroot).mp h.resources

theorem mappedImageCounts_reported_iff (image : AcceptedImage m) :
    CountsReported m image.toPhMappedImage ↔ CountsFit m image.toPhMappedImage :=
  ⟨CountsReported.fit, countsReported_of_fit⟩

/-- A file that ends behind the first of two records of its debug directory. -/
def cutDebug : Mem := fileMem (smallHeaders imageNtOptionalHdr64Magic 6 56 64)

def cutDebugImage : AcceptedImage cutDebug where
  toPhMappedImage := smallImage imageNtOptionalHdr64Magic 396 (by omega)
  accepted := by decide +kernel

theorem phGetMappedImageDebug_miscounts :
    ¬ CountsReported cutDebug cutDebugImage.toPhMappedImage := by
  intro h
  have hdirectory : (debugDirectory cutDebugImage.toPhMappedImage statusInvalidParameter).val
      cutDebug = .ok (0x10170, 2) := by decide +kernel
  exact absurd (h.fit.debug _ hdirectory 1 (by decide)) (by decide +kernel)

end SystemInformer.PhLib
