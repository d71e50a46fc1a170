import SystemInformer.PhLib.MappedRelocations
import SystemInformer.Proofs.MappedImage

/-!
# Two walks over the same blocks

Both functions step from block to block by the size that the block gives. The loop that validates
comes to the end of the directory over blocks that are all right, or stops at the first one that is
not; that is what `WalkedBlocks` and `MalformedAt` say of its result. The loop that enumerates comes to
the blocks that `Reaches` tells, which depends on when the callback stops it. The two agree if the
loop that enumerates never comes to a block that the other one refuses: then every step leaves less
of the view behind it, and the blocks are the same as long as the callback goes on. If it does come
to such a block, it hands it over.
-/

namespace SystemInformer.PhLib

open Bytes

variable {m : Mem} {view : ImageView} {image : PhMappedImage} {stop first block : Nat}

/-! ## Blocks that are all right -/

/-- What `PhGetMappedImageRelocations` checks of a block. -/
structure BlockOk (view : ImageView) (m : Mem) (block : Nat) : Prop where
  head : view.Holds block 8
  size : 8 ≤ sizeOfBlock m block
  held : view.Holds block (sizeOfBlock m block)

theorem sizeOfBlock_lt (m : Mem) (block : Nat) : sizeOfBlock m block < 2 ^ 32 :=
  field_lt m (block + 4) 4

theorem BlockOk.nextBlock (h : BlockOk view m block) :
    nextBlock m block = block + sizeOfBlock m block := by
  have hfits := view.fits
  have hheld := h.held.2
  exact Nat.mod_eq_of_lt (by omega)

theorem BlockOk.left_next (h : BlockOk view m block) :
    view.left (PhLib.nextBlock m block) < view.left block := by
  have hsize := h.size
  have hheld := h.held.2
  rw [h.nextBlock, ImageView.left, ImageView.left, if_pos h.held.1,
    if_pos (Nat.le_add_right_of_le h.held.1)]
  omega

theorem BlockOk.relocationCount (h : BlockOk view m block) :
    relocationCount (sizeOfBlock m block) = (sizeOfBlock m block - 8) / 2 := by
  have hsize := h.size
  have hlt := sizeOfBlock_lt m block
  rw [PhLib.relocationCount, sizeofImageBaseRelocation]
  omega

/-- The block at an index, counted from the first. -/
def blockAt (m : Mem) (first k : Nat) : Nat := (nextBlock m)^[k] first

/-- The walk passes the blocks below an index. -/
def WalkedBlocks (view : ImageView) (m : Mem) (stop first k : Nat) : Prop :=
  ∀ j < k, blockAt m first j < stop ∧ BlockOk view m (blockAt m first j)

/-- The walk stops at the block at an index. -/
structure MalformedAt (view : ImageView) (m : Mem) (stop first k : Nat) : Prop where
  walked : WalkedBlocks view m stop first k
  inside : blockAt m first k < stop
  malformed : ¬ BlockOk view m (blockAt m first k)

theorem walkedBlocks_zero : WalkedBlocks view m stop first 0 := fun j hj => absurd hj (Nat.not_lt_zero j)

theorem blockAt_succ (m : Mem) (first k : Nat) :
    blockAt m first (k + 1) = blockAt m (nextBlock m first) k := Function.iterate_succ_apply ..

theorem walkedBlocks_succ_iff {k : Nat} : WalkedBlocks view m stop first (k + 1) ↔
    (first < stop ∧ BlockOk view m first) ∧ WalkedBlocks view m stop (nextBlock m first) k := by
  rw [WalkedBlocks, Nat.forall_lt_succ_left]
  exact Iff.rfl

theorem malformedAt_succ {k : Nat} (hfirst : first < stop ∧ BlockOk view m first)
    (h : MalformedAt view m stop (nextBlock m first) k) :
    MalformedAt view m stop first (k + 1) :=
  ⟨walkedBlocks_succ_iff.mpr ⟨hfirst, h.walked⟩, h.inside, h.malformed⟩

/-! ## The loop that validates -/

theorem validateBlocks_ended (h : ¬ first < stop) : validateBlocks view m stop first = .ok 0 := by
  rw [validateBlocks, if_neg h]

theorem validateBlocks_step (h : first < stop) (hok : BlockOk view m first) :
    validateBlocks view m stop first =
      (validateBlocks view m stop (nextBlock m first)).map (· + 1) := by
  have hlt := sizeOfBlock_lt m first
  have hsize := hok.size
  have hhead : view.Probes first sizeofImageBaseRelocation :=
    (ImageView.probes_iff (by decide) (by decide)).mpr hok.head
  have hheld : view.Probes first (sizeOfBlock m first) :=
    (ImageView.probes_iff (by omega) (by omega)).mpr hok.held
  have hsize' : ¬ sizeOfBlock m first < sizeofImageBaseRelocation := Nat.not_lt.mpr hsize
  rw [validateBlocks, if_pos h, dif_pos hhead, dif_pos hheld, dif_neg hsize']

theorem validateBlocks_malformed (h : first < stop) (hok : ¬ BlockOk view m first) :
    ∃ status, validateBlocks view m stop first = .error status := by
  have hlt := sizeOfBlock_lt m first
  rw [validateBlocks, if_pos h]
  split
  · next hhead =>
      split
      · next hheld =>
          split
          · exact ⟨_, rfl⟩
          · next hsize =>
              rw [sizeofImageBaseRelocation, Nat.not_lt] at hsize
              exact absurd ⟨(ImageView.probes_iff (by decide) (by decide)).mp hhead, hsize,
                (ImageView.probes_iff (by omega) (by omega)).mp hheld⟩ hok
      · exact ⟨_, rfl⟩
  · exact ⟨_, rfl⟩

theorem validateBlocks_walks (view : ImageView) (m : Mem) (stop first : Nat) :
    (∃ n, validateBlocks view m stop first = .ok n ∧ WalkedBlocks view m stop first n ∧
      ¬ blockAt m first n < stop) ∨
    ∃ status k, validateBlocks view m stop first = .error status ∧
      MalformedAt view m stop first k := by
  induction hleft : view.left first using Nat.strong_induction_on generalizing first with
  | _ left ih =>
      by_cases h : first < stop
      · by_cases hok : BlockOk view m first
        · rcases ih _ (hleft ▸ hok.left_next) _ rfl with ⟨n, hn, hwalked, hend⟩ |
            ⟨status, k, hstatus, hk⟩
          · exact .inl ⟨n + 1, by rw [validateBlocks_step h hok, hn]; rfl,
              walkedBlocks_succ_iff.mpr ⟨⟨h, hok⟩, hwalked⟩, hend⟩
          · exact .inr ⟨status, k + 1, by rw [validateBlocks_step h hok, hstatus]; rfl,
              malformedAt_succ ⟨h, hok⟩ hk⟩
        · obtain ⟨status, hstatus⟩ := validateBlocks_malformed h hok
          exact .inr ⟨status, 0, hstatus, walkedBlocks_zero, h, hok⟩
      · exact .inl ⟨0, validateBlocks_ended h, walkedBlocks_zero, h⟩

theorem MalformedAt.not_walked {k n : Nat} (h : MalformedAt view m stop first k)
    (hn : WalkedBlocks view m stop first n) : blockAt m first n < stop := by
  rcases Nat.lt_trichotomy n k with hlt | rfl | hlt
  · exact (h.walked n hlt).1
  · exact h.inside
  · exact absurd (hn k hlt).2 h.malformed

/-! ## The loop that lists -/

/-- What a listed record says, but for the pointers. -/
def PhImageRelocEntry.listed (e : PhImageRelocEntry) : Nat × Nat × Nat × Nat :=
  (e.blockIndex, e.blockRva, e.type, e.offset)

/-- The records of a block that was handed over, from an index on. -/
def recordsFrom (m : Mem) (blockIndex : Nat) (b : RelocBlock) (i count : Nat) :
    List (Nat × Nat × Nat × Nat) :=
  (List.range' i count).map fun i =>
    let record_ := field m (ptrAddOffset b.records (2 * i)) 2
    (blockIndex, field m b.block 4, record_ / 2 ^ 12, record_ % 2 ^ 12)

/-- The records of blocks that were handed over, in order. -/
def recordsOf (m : Mem) : Nat → List RelocBlock → List (Nat × Nat × Nat × Nat)
  | _, [] => []
  | blockIndex, b :: blocks =>
      recordsFrom m blockIndex b 0 b.count ++ recordsOf m (blockIndex + 1) blocks

def blocksFrom (m : Mem) : Nat → Nat → List RelocBlock
  | _, 0 => []
  | first, n + 1 => relocBlock m first :: blocksFrom m (nextBlock m first) n

theorem val_relocEntry (block blockIndex i : Nat) :
    ∃ e, (relocEntry image block blockIndex i).val m = .ok e ∧
      recordsFrom m blockIndex (relocBlock m block) i 1 = [e.listed] := by
  have hrecord : ptrAddOffset (relocBlock m block).records (2 * i) =
      ptrAddOffset block (8 + 2 * i) := by
    rw [relocBlock, ptrAddOffset, ptrAddOffset, ptrAddOffset, Nat.mod_add_mod, Nat.add_assoc]
  have hlisted : recordsFrom m blockIndex (relocBlock m block) i 1 =
      [(blockIndex, field m block 4, field m (ptrAddOffset block (8 + 2 * i)) 2 / 2 ^ 12,
        field m (ptrAddOffset block (8 + 2 * i)) 2 % 2 ^ 12)] := by
    simp only [recordsFrom, hrecord, List.range'_one, List.map_cons, List.map_nil]
    rfl
  rw [relocEntry, val_record_bind, val_record_bind, hlisted]
  dsimp only
  split
  · exact ⟨_, rfl, rfl⟩
  · obtain ⟨base, hbase⟩ : ∃ base, (imageBase image).val m = .ok base := by
      rw [imageBase]
      split
      · exact ⟨_, rfl⟩
      · exact ⟨_, rfl⟩
    obtain ⟨va, hva⟩ := @exists_phMappedImageRvaToVa image m ((field m block 4 +
      field m (ptrAddOffset block (8 + 2 * i)) 2 % 2 ^ 12) % 2 ^ 32)
    rw [Checked.val_bind_ok hbase, Checked.val_bind_ok hva]
    exact ⟨_, rfl, rfl⟩

theorem val_relocEntries (block blockIndex left i : Nat) :
    ∃ entries, (relocEntries image block blockIndex left i).val m = .ok entries ∧
      entries.map PhImageRelocEntry.listed =
        recordsFrom m blockIndex (relocBlock m block) i left := by
  induction left generalizing i with
  | zero => exact ⟨[], rfl, rfl⟩
  | succ left ih =>
      obtain ⟨e, he, hlisted⟩ := @val_relocEntry m image block blockIndex i
      obtain ⟨entries, hentries, hrest⟩ := ih (i + 1)
      rw [relocEntries, Checked.val_bind_ok he, Checked.val_bind_ok hentries]
      refine ⟨_, rfl, ?_⟩
      rw [List.map_cons, hrest, ← List.singleton_append, ← hlisted, recordsFrom, recordsFrom,
        recordsFrom, ← List.map_append, List.range'_one, List.range'_succ, List.singleton_append]

theorem relocBlock_count (m : Mem) (block : Nat) :
    (relocBlock m block).count = relocationCount (sizeOfBlock m block) := by
  rw [relocBlock]

theorem val_blockEntries (block blockIndex : Nat) :
    ∃ entries, (blockEntries image block blockIndex (sizeOfBlock m block)).val m = .ok entries ∧
      entries.map PhImageRelocEntry.listed =
        recordsFrom m blockIndex (relocBlock m block) 0 (relocBlock m block).count := by
  rw [blockEntries, relocBlock_count]
  exact val_relocEntries block blockIndex _ 0

theorem val_listBlocks_succ
    {entriesOf : Nat → Nat → Nat → ImageReader (List PhImageRelocEntry)} {n blockIndex : Nat}
    {entries rest : List PhImageRelocEntry} (h : first < stop)
    (hentries : (entriesOf first blockIndex (sizeOfBlock m first)).val m = .ok entries)
    (hrest : (listBlocks entriesOf stop n (nextBlock m first) (blockIndex + 1)).val m =
      .ok rest) :
    (listBlocks entriesOf stop (n + 1) first blockIndex).val m = .ok (entries ++ rest) := by
  rw [listBlocks, if_pos h, val_record_bind]
  exact (Checked.val_bind_ok hentries).trans (Checked.val_bind_ok hrest)

theorem val_listBlocks {n : Nat} (blockIndex : Nat)
    (h : ∀ j < n, blockAt m first j < stop) :
    ∃ entries, (listBlocks (blockEntries image) stop n first blockIndex).val m = .ok entries ∧
      entries.map PhImageRelocEntry.listed = recordsOf m blockIndex (blocksFrom m first n) := by
  induction n generalizing first blockIndex with
  | zero => exact ⟨[], rfl, rfl⟩
  | succ n ih =>
      obtain ⟨hfirst, hnext⟩ := Nat.forall_lt_succ_left.mp h
      obtain ⟨entries, hentries, hlisted⟩ := @val_blockEntries m image first blockIndex
      obtain ⟨rest, hrest, hlisted'⟩ := @ih (nextBlock m first) (blockIndex + 1) hnext
      refine ⟨entries ++ rest, val_listBlocks_succ hfirst hentries hrest, ?_⟩
      rw [List.map_append, hlisted, hlisted', blocksFrom, recordsOf]

theorem val_phGetMappedImageRelocations {directory : Nat × Nat} {n : Nat}
    (h : (relocationDirectory image).val m = .ok directory)
    (hn : validateBlocks image.view m directory.2 directory.1 = .ok n)
    (hwalked : WalkedBlocks image.view m directory.2 directory.1 n) :
    ∃ relocs, (phGetMappedImageRelocations image).val m = .ok relocs ∧
      relocs.relocationEntries.map PhImageRelocEntry.listed =
        recordsOf m 0 (blocksFrom m directory.1 n) ∧
      relocs.numberOfEntries = relocs.relocationEntries.length % 2 ^ 32 := by
  obtain ⟨entries, hentries, hlisted⟩ := @val_listBlocks m image directory.2 directory.1 n 0
    fun j hj => (hwalked j hj).1
  rw [phGetMappedImageRelocations, Checked.val_bind_ok h, Checked.val_ofMem_bind_ok hn,
    Checked.val_bind_ok hentries]
  exact ⟨_, rfl, hlisted, rfl⟩

/-! ## The loop that enumerates -/

section

variable {σ : Type} {callback : RelocCallback σ} {context : σ} {status : NtStatus} {rounds : Nat}

inductive Reaches (m : Mem) (callback : RelocCallback σ) (stop : Nat) :
    Nat → σ → Nat → Prop where
  | here {first : Nat} {context : σ} : first < stop → Reaches m callback stop first context first
  | next {first block : Nat} {context : σ} : first < stop →
      (callback context (relocBlock m first)).1 ≠ statusNoMoreEntries →
      Reaches m callback stop (nextBlock m first) (callback context (relocBlock m first)).2 block →
      Reaches m callback stop first context block

theorem enumerateBlocks_goesOn (h : first < stop)
    (hgo : (callback context (relocBlock m first)).1 ≠ statusNoMoreEntries) :
    enumerateBlocks m callback stop (rounds + 1) first status context =
      { enumerateBlocks m callback stop rounds (nextBlock m first)
          (callback context (relocBlock m first)).1
          (callback context (relocBlock m first)).2 with
        blocks := relocBlock m first :: (enumerateBlocks m callback stop rounds
          (nextBlock m first) (callback context (relocBlock m first)).1
          (callback context (relocBlock m first)).2).blocks } := by
  rw [enumerateBlocks, if_pos h]
  exact if_neg hgo

theorem enumerateBlocks_stopped (h : first < stop)
    (hstop : (callback context (relocBlock m first)).1 = statusNoMoreEntries) :
    enumerateBlocks m callback stop (rounds + 1) first status context =
      ⟨[relocBlock m first], true, (callback context (relocBlock m first)).1⟩ := by
  rw [enumerateBlocks, if_pos h]
  exact if_pos hstop

theorem enumerateBlocks_ended (h : ¬ first < stop) :
    enumerateBlocks m callback stop rounds first status context = ⟨[], true, status⟩ := by
  cases rounds with
  | zero => rw [enumerateBlocks, decide_eq_true h]
  | succ rounds => rw [enumerateBlocks, if_neg h]

theorem reaches_of_mem {b : RelocBlock}
    (h : b ∈ (enumerateBlocks m callback stop rounds first status context).blocks) :
    ∃ block, b = relocBlock m block ∧ Reaches m callback stop first context block := by
  induction rounds generalizing first status context with
  | zero => cases h
  | succ rounds ih =>
      by_cases hlt : first < stop
      · by_cases hstop : (callback context (relocBlock m first)).1 = statusNoMoreEntries
        · rw [enumerateBlocks_stopped hlt hstop, List.mem_singleton] at h
          exact ⟨first, h, .here hlt⟩
        · rw [enumerateBlocks_goesOn hlt hstop] at h
          rcases List.mem_cons.mp h with rfl | h
          · exact ⟨first, rfl, .here hlt⟩
          · obtain ⟨block, rfl, hblock⟩ := ih h
            exact ⟨block, rfl, .next hlt hstop hblock⟩
      · rw [enumerateBlocks_ended hlt] at h
        cases h

theorem mem_of_reaches (h : Reaches m callback stop first context block) (status : NtStatus) :
    ∃ rounds, relocBlock m block ∈
      (enumerateBlocks m callback stop rounds first status context).blocks := by
  induction h generalizing status with
  | @here first context hlt =>
      refine ⟨1, ?_⟩
      by_cases hstop : (callback context (relocBlock m first)).1 = statusNoMoreEntries
      · rw [enumerateBlocks_stopped hlt hstop]
        exact List.mem_cons_self
      · rw [enumerateBlocks_goesOn hlt hstop]
        exact List.mem_cons_self
  | @next first block context hlt hgo _ ih =>
      obtain ⟨rounds, hmem⟩ := ih (callback context (relocBlock m first)).1
      refine ⟨rounds + 1, ?_⟩
      rw [enumerateBlocks_goesOn hlt hgo]
      exact List.mem_cons_of_mem _ hmem

theorem Reaches.index (h : Reaches m callback stop first context block) :
    ∃ k, block = blockAt m first k ∧ ∀ j ≤ k, blockAt m first j < stop ∧
      Reaches m callback stop first context (blockAt m first j) := by
  induction h with
  | @here first context hlt =>
      refine ⟨0, rfl, fun j hj => ?_⟩
      obtain rfl := Nat.le_zero.mp hj
      exact ⟨hlt, .here hlt⟩
  | @next first block context hlt hgo _ ih =>
      obtain ⟨k, rfl, hk⟩ := ih
      refine ⟨k + 1, (blockAt_succ m first k).symm, fun j hj => ?_⟩
      cases j with
      | zero => exact ⟨hlt, .here hlt⟩
      | succ j =>
          obtain ⟨hjlt, hreach⟩ := hk j (Nat.le_of_succ_le_succ hj)
          rw [blockAt_succ]
          exact ⟨hjlt, .next hlt hgo hreach⟩

theorem enumerateBlocks_ends
    (h : ∀ block, Reaches m callback stop first context block → BlockOk view m block)
    (status : NtStatus) :
    ∃ rounds, (enumerateBlocks m callback stop rounds first status context).ended = true := by
  induction hleft : view.left first using Nat.strong_induction_on
    generalizing first status context with
  | _ left ih =>
      by_cases hlt : first < stop
      · by_cases hstop : (callback context (relocBlock m first)).1 = statusNoMoreEntries
        · exact ⟨1, by rw [enumerateBlocks_stopped hlt hstop]⟩
        · have hok := h first (.here hlt)
          obtain ⟨rounds, hrounds⟩ := ih _ (hleft ▸ hok.left_next)
            (fun block hblock => h block (.next hlt hstop hblock))
            (callback context (relocBlock m first)).1 rfl
          exact ⟨rounds + 1, by rw [enumerateBlocks_goesOn hlt hstop]; exact hrounds⟩
      · exact ⟨0, by rw [enumerateBlocks_ended hlt]⟩

theorem enumerateBlocks_all {n : Nat} (hgo : ∀ c b, (callback c b).1 ≠ statusNoMoreEntries)
    (hwalked : WalkedBlocks view m stop first n) (hend : ¬ blockAt m first n < stop)
    (h : (enumerateBlocks m callback stop rounds first status context).ended = true) :
    (enumerateBlocks m callback stop rounds first status context).blocks =
      blocksFrom m first n := by
  induction rounds generalizing first status context n with
  | zero =>
      cases n with
      | zero => rfl
      | succ n => exact absurd (hwalked 0 (Nat.succ_pos n)).1 (of_decide_eq_true h)
  | succ rounds ih =>
      cases n with
      | zero =>
          have hfirst : ¬ first < stop := hend
          rw [enumerateBlocks_ended hfirst]
          rfl
      | succ n =>
          obtain ⟨⟨hlt, -⟩, hrest⟩ := walkedBlocks_succ_iff.mp hwalked
          rw [enumerateBlocks_goesOn hlt (hgo _ _)] at h ⊢
          rw [blocksFrom]
          exact congrArg _ (ih hrest hend h)

/-! ## Whether the two agree -/

/-- `PhGetMappedImageRelocations` stops at the block because it is malformed. -/
def RelocationsFailOn (m : Mem) (image : PhMappedImage) (block : Nat) : Prop :=
  ∃ directory, (relocationDirectory image).val m = .ok directory ∧
    ∃ k, MalformedAt image.view m directory.2 directory.1 k ∧ block = blockAt m directory.1 k

theorem phGetMappedImageRelocations_fails_iff :
    (∃ status, (phGetMappedImageRelocations image).val m = .error status) ↔
      (∃ status, (relocationDirectory image).val m = .error status) ∨
        ∃ block, RelocationsFailOn m image block := by
  cases hdirectory : (relocationDirectory image).val m with
  | error status =>
      refine iff_of_true ⟨status, ?_⟩ (.inl ⟨status, rfl⟩)
      rw [phGetMappedImageRelocations, Checked.val_bind_error hdirectory]
  | ok directory =>
      rcases validateBlocks_walks image.view m directory.2 directory.1 with
        ⟨n, hn, hwalked, hend⟩ | ⟨status, k, hstatus, hk⟩
      · obtain ⟨relocs, hrelocs, -⟩ := val_phGetMappedImageRelocations hdirectory hn hwalked
        refine iff_of_false ?_ ?_
        · rintro ⟨status, hstatus⟩
          cases hrelocs.symm.trans hstatus
        · rintro (⟨status, hstatus⟩ | ⟨block, d, hd, k, hk, -⟩)
          · cases hstatus
          · obtain rfl := Except.ok.inj (hdirectory.symm.trans hd)
            exact hend (hk.not_walked hwalked)
      · refine iff_of_true ⟨status, ?_⟩ (.inr ⟨_, directory, hdirectory, k, hk, rfl⟩)
        rw [phGetMappedImageRelocations, Checked.val_bind_ok hdirectory]
        exact Checked.val_bind_error (x := Checked.ofMem _) hstatus

/-- What is expected of an enumeration, beside the list of the relocations. -/
structure RelocationsAgree (m : Mem) (image : PhMappedImage) (callback : RelocCallback σ)
    (context : σ) : Prop where
  terminates : ∃ rounds, ∀ r,
    phMappedImageEnumerateRelocations m image callback context rounds = .ok r → r.ended = true
  inside : ∀ rounds r,
    phMappedImageEnumerateRelocations m image callback context rounds = .ok r →
      ∀ b ∈ r.blocks, image.view.Holds b.block 8 ∧ image.view.Holds b.records (2 * b.count)
  same : ∀ relocs, (phGetMappedImageRelocations image).val m = .ok relocs →
    (∀ c b, (callback c b).1 ≠ statusNoMoreEntries) → ∀ rounds r,
      phMappedImageEnumerateRelocations m image callback context rounds = .ok r →
        r.ended = true →
        relocs.relocationEntries.map PhImageRelocEntry.listed = recordsOf m 0 r.blocks
  refused : ∀ block, RelocationsFailOn m image block → ∀ rounds r,
    phMappedImageEnumerateRelocations m image callback context rounds = .ok r →
      ∀ b ∈ r.blocks, b.block ≠ block

/-- The enumeration comes to no block that is not in the view as a whole or is shorter than its
header. -/
def ReachesOnlyBlocks (m : Mem) (image : PhMappedImage) (callback : RelocCallback σ)
    (context : σ) : Prop :=
  ∀ directory, (relocationDirectory image).val m = .ok directory →
    ∀ block, Reaches m callback directory.2 directory.1 context block →
      BlockOk image.view m block

theorem phMappedImageEnumerateRelocations_of_ok {r : EnumeratedBlocks}
    (h : phMappedImageEnumerateRelocations m image callback context rounds = .ok r) :
    ∃ directory, (relocationDirectory image).val m = .ok directory ∧
      enumerateBlocks m callback directory.2 rounds directory.1 statusSuccess context = r := by
  rw [phMappedImageEnumerateRelocations] at h
  cases hdirectory : (relocationDirectory image).val m with
  | error status =>
      rw [hdirectory] at h
      cases h
  | ok directory =>
      rw [hdirectory] at h
      exact ⟨directory, rfl, Except.ok.inj h⟩

theorem phMappedImageEnumerateRelocations_ok {directory : Nat × Nat}
    (h : (relocationDirectory image).val m = .ok directory) :
    phMappedImageEnumerateRelocations m image callback context rounds =
      .ok (enumerateBlocks m callback directory.2 rounds directory.1 statusSuccess context) := by
  rw [phMappedImageEnumerateRelocations, h]
  rfl

theorem relocationsAgree_of_blocks (h : ReachesOnlyBlocks m image callback context) :
    RelocationsAgree m image callback context where
  terminates := by
    cases hdirectory : (relocationDirectory image).val m with
    | error status =>
        refine ⟨0, fun r hr => ?_⟩
        obtain ⟨directory, hok, -⟩ := phMappedImageEnumerateRelocations_of_ok hr
        cases hdirectory.symm.trans hok
    | ok directory =>
        obtain ⟨rounds, hrounds⟩ := enumerateBlocks_ends (h directory hdirectory) statusSuccess
        refine ⟨rounds, fun r hr => ?_⟩
        rw [phMappedImageEnumerateRelocations_ok hdirectory] at hr
        obtain rfl := Except.ok.inj hr
        exact hrounds
  inside := by
    intro rounds r hr b hb
    obtain ⟨directory, hdirectory, rfl⟩ := phMappedImageEnumerateRelocations_of_ok hr
    obtain ⟨block, rfl, hreach⟩ := reaches_of_mem hb
    have hok := h directory hdirectory block hreach
    obtain ⟨hlo, hhi⟩ := hok.held
    have hsize := hok.size
    have hfits := image.view.fits
    have hrecords : (relocBlock m block).records = block + 8 := Nat.mod_eq_of_lt (by omega)
    refine ⟨hok.head, ?_⟩
    rw [hrecords, relocBlock_count, hok.relocationCount]
    exact ⟨by omega, by omega⟩
  same := by
    intro relocs hrelocs hgo rounds r hr hended
    obtain ⟨directory, hdirectory, rfl⟩ := phMappedImageEnumerateRelocations_of_ok hr
    rcases validateBlocks_walks image.view m directory.2 directory.1 with
      ⟨n, hn, hwalked, hend⟩ | ⟨status, k, hstatus, hk⟩
    · obtain ⟨relocs', hrelocs', hlisted, -⟩ :=
        val_phGetMappedImageRelocations hdirectory hn hwalked
      obtain rfl := Except.ok.inj (hrelocs.symm.trans hrelocs')
      rw [hlisted, enumerateBlocks_all hgo hwalked hend hended]
    · obtain ⟨status', hfails⟩ := phGetMappedImageRelocations_fails_iff.mpr
        (.inr ⟨_, directory, hdirectory, k, hk, rfl⟩)
      cases hrelocs.symm.trans hfails
  refused := by
    rintro block ⟨directory, hdirectory, k, hk, rfl⟩ rounds r hr b hb hsame
    obtain ⟨d, hd, rfl⟩ := phMappedImageEnumerateRelocations_of_ok hr
    obtain ⟨block, rfl, hreach⟩ := reaches_of_mem hb
    have hok := h d hd block hreach
    have hblock : block = blockAt m directory.1 k := hsame
    rw [hblock] at hok
    exact hk.malformed hok

theorem RelocationsAgree.blocks (h : RelocationsAgree m image callback context) :
    ReachesOnlyBlocks m image callback context := by
  intro directory hdirectory block hreach
  by_contra hbad
  obtain ⟨k, rfl, hk⟩ := hreach.index
  obtain ⟨j, hj, hfirst⟩ : ∃ j, (j ≤ k ∧ ¬ BlockOk image.view m (blockAt m directory.1 j)) ∧
      ∀ i < j, BlockOk image.view m (blockAt m directory.1 i) := by
    classical
    have hexists : ∃ j, j ≤ k ∧ ¬ BlockOk image.view m (blockAt m directory.1 j) :=
      ⟨k, Nat.le_refl k, hbad⟩
    refine ⟨Nat.find hexists, Nat.find_spec hexists, fun i hi => ?_⟩
    by_contra hno
    exact Nat.find_min hexists hi ⟨hi.le.trans (Nat.find_spec hexists).1, hno⟩
  have hmalformed : MalformedAt image.view m directory.2 directory.1 j :=
    ⟨fun i hi => ⟨(hk i (hi.le.trans hj.1)).1, hfirst i hi⟩, (hk j hj.1).1, hj.2⟩
  obtain ⟨rounds, hmem⟩ := mem_of_reaches (hk j hj.1).2 statusSuccess
  exact h.refused _ ⟨directory, hdirectory, j, hmalformed, rfl⟩ rounds _
    (phMappedImageEnumerateRelocations_ok hdirectory) _ hmem rfl

theorem phMappedImageEnumerateRelocations_agrees_iff (image : AcceptedImage m)
    (callback : RelocCallback σ) (context : σ) :
    RelocationsAgree m image.toPhMappedImage callback context ↔
      ReachesOnlyBlocks m image.toPhMappedImage callback context :=
  ⟨RelocationsAgree.blocks, relocationsAgree_of_blocks⟩

end

/-- A file whose relocation directory consists of one block of size 0. -/
def zeroBlock : Mem := fileMem (smallHeaders imageNtOptionalHdr64Magic 5 8 64)

def zeroBlockImage : AcceptedImage zeroBlock where
  toPhMappedImage := smallImage imageNtOptionalHdr64Magic 432 (by omega)
  accepted := by decide +kernel

theorem phMappedImageEnumerateRelocations_strays :
    ¬ RelocationsAgree zeroBlock zeroBlockImage.toPhMappedImage
      (fun (_ : Unit) _ => (statusSuccess, ())) () := by
  intro h
  have hdirectory : (relocationDirectory zeroBlockImage.toPhMappedImage).val zeroBlock =
      .ok (0x10170, 0x10178) := by decide +kernel
  have hok := h.blocks _ hdirectory 0x10170 (.here (by decide))
  exact absurd hok.size (by decide +kernel)

end SystemInformer.PhLib
