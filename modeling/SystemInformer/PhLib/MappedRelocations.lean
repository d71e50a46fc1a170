import SystemInformer.PhLib.MappedImage

/-!
# The base relocations of a mapped image (`mapimg.c`)

The relocation directory is a sequence of blocks, each of which says how long it is.
`PhGetMappedImageRelocations` goes through it twice: once to see that the blocks are in the view
and not shorter than their header, and once to list their records.
`PhMappedImageEnumerateRelocations` goes through it once and hands the blocks to a callback, which
may stop it. Only the first of these three loops looks at what it steps over.

The two loops without checks are given a number of rounds. The second loop of
`PhGetMappedImageRelocations` gets as many as the first one has made. The other may go on forever;
what it has done after some rounds says whether it has come to its end.
-/

namespace SystemInformer.PhLib

open Bytes

/-! ## Blocks -/

def imageDirectoryEntryBaseReloc : Nat := 5

def sizeofImageBaseRelocation : Nat := 8

/-- `SizeOfBlock` of the `IMAGE_BASE_RELOCATION` at an address. -/
def sizeOfBlock (m : Mem) (block : Nat) : Nat := field m (block + 4) 4

def nextBlock (m : Mem) (block : Nat) : Nat := ptrAddOffset block (sizeOfBlock m block)

/-- The number of records as both functions compute it: the difference is a `SIZE_T`, the number a
`ULONG`. -/
def relocationCount (sizeOfBlock : Nat) : Nat :=
  (sizeOfBlock + (2 ^ 64 - sizeofImageBaseRelocation)) % 2 ^ 64 / 2 % 2 ^ 32

/-- Where the directory begins, and its end. -/
def relocationDirectory (image : PhMappedImage) : ImageReader (Nat × Nat) := do
  let dataDirectory ← phGetMappedImageDataDirectory image imageDirectoryEntryBaseReloc
  let virtualAddress ← header dataDirectory 4
  let directory ← phMappedImageRvaToVa image virtualAddress
  Checked.require (directory ≠ 0) statusInvalidParameter
  phMappedImageProbe image.view directory sizeofImageBaseRelocation
  let size ← header (dataDirectory + 4) 4
  pure (directory, ptrAddOffset directory size)

/-! ## Listing -/

theorem ImageView.left_step {view : ImageView} {address length size : Nat}
    (hlength : 0 < length) (hlt : length < 2 ^ 64) (h : view.Probes address length)
    (hsize : 0 < size) (hsize' : size < 2 ^ 64) (h' : view.Probes address size) :
    view.left (ptrAddOffset address size) < view.left address := by
  have hfits := view.fits
  obtain ⟨hlo, hhi⟩ := (ImageView.probes_iff hlength hlt).mp h
  obtain ⟨-, hhi'⟩ := (ImageView.probes_iff hsize hsize').mp h'
  rw [ImageView.left, ImageView.left, ptrAddOffset, Nat.mod_eq_of_lt (by omega), if_pos hlo]
  split
  · omega
  · omega

/-- The first loop; the result is the number of blocks. -/
def validateBlocks (view : ImageView) (m : Mem) (stop block : Nat) : Except NtStatus Nat :=
  if block < stop then
    if h : view.Probes block sizeofImageBaseRelocation then
      if h' : view.Probes block (sizeOfBlock m block) then
        if h'' : sizeOfBlock m block < sizeofImageBaseRelocation then
          .error statusInvalidImageFormat
        else (validateBlocks view m stop (nextBlock m block)).map (· + 1)
      else .error statusAccessViolation
    else .error statusAccessViolation
  else .ok 0
termination_by view.left block
decreasing_by
  have hlt : sizeOfBlock m block < 2 ^ 32 := field_lt m (block + 4) 4
  simp only [sizeofImageBaseRelocation] at h h''
  exact ImageView.left_step (by omega) (by omega) h (by omega) (by omega) h'

/-- `PH_IMAGE_RELOC_ENTRY`, with the record taken apart. -/
structure PhImageRelocEntry where
  blockIndex : Nat
  blockRva : Nat
  type : Nat
  offset : Nat
  imageBaseVa : Nat
  mappedImageVa : Nat

structure PhMappedImageReloc where
  mappedImage : PhMappedImage
  firstRelocationDirectory : Nat
  numberOfEntries : Nat
  relocationEntries : List PhImageRelocEntry

def imageRelBasedAbsolute : Nat := 0

def relocEntry (image : PhMappedImage) (block blockIndex i : Nat) :
    ImageReader PhImageRelocEntry := do
  let record_ ← record (ptrAddOffset block (8 + 2 * i)) 2
  let blockRva ← record block 4
  let type := record_ / 2 ^ 12
  let offset := record_ % 2 ^ 12
  if type = imageRelBasedAbsolute then pure ⟨blockIndex, blockRva, type, offset, 0, 0⟩
  else do
    let base ← imageBase image
    let va ← phMappedImageRvaToVa image ((blockRva + offset) % 2 ^ 32)
    pure ⟨blockIndex, blockRva, type, offset, ptrAddOffset base (blockRva + offset), va⟩

/-- The loop over the records of a block, with the number of those that are left. -/
def relocEntries (image : PhMappedImage) (block blockIndex : Nat) :
    Nat → Nat → ImageReader (List PhImageRelocEntry)
  | 0, _ => pure []
  | left + 1, i => do
      let entry ← relocEntry image block blockIndex i
      let entries ← relocEntries image block blockIndex left (i + 1)
      pure (entry :: entries)

def blockEntries (image : PhMappedImage) (block blockIndex size : Nat) :
    ImageReader (List PhImageRelocEntry) :=
  relocEntries image block blockIndex (relocationCount size) 0

/-- The second loop, which lists what `entriesOf` tells of each block. -/
def listBlocks (entriesOf : Nat → Nat → Nat → ImageReader (List PhImageRelocEntry))
    (stop : Nat) : Nat → Nat → Nat → ImageReader (List PhImageRelocEntry)
  | 0, _, _ => pure []
  | rounds + 1, block, blockIndex =>
      if block < stop then do
        let size ← record (block + 4) 4
        let entries ← entriesOf block blockIndex size
        let rest ← listBlocks entriesOf stop rounds (ptrAddOffset block size) (blockIndex + 1)
        pure (entries ++ rest)
      else pure []

def phGetMappedImageRelocations (image : PhMappedImage) : ImageReader PhMappedImageReloc := do
  let directory ← relocationDirectory image
  let rounds ← Checked.ofMem (validateBlocks image.view · directory.2 directory.1)
  let entries ← listBlocks (blockEntries image) directory.2 rounds directory.1 0
  pure ⟨image, directory.1, entries.length % 2 ^ 32, entries⟩

/-! ## Enumerating -/

/-- What the callback is handed: a block, its records and their number. -/
structure RelocBlock where
  block : Nat
  records : Nat
  count : Nat

def relocBlock (m : Mem) (block : Nat) : RelocBlock :=
  ⟨block, ptrAddOffset block 8, relocationCount (sizeOfBlock m block)⟩

/-- A callback, with its context as the state. -/
abbrev RelocCallback (σ : Type) := σ → RelocBlock → NtStatus × σ

/-- What has been handed over in some rounds of the loop, and whether the loop has ended. -/
structure EnumeratedBlocks where
  blocks : List RelocBlock
  ended : Bool
  status : NtStatus

/-- The loop of `PhMappedImageEnumerateRelocations`. -/
def enumerateBlocks {σ : Type} (m : Mem) (callback : RelocCallback σ) (stop : Nat) :
    Nat → Nat → NtStatus → σ → EnumeratedBlocks
  | 0, block, status, _ => ⟨[], ¬ block < stop, status⟩
  | rounds + 1, block, status, context =>
      if block < stop then
        let b := relocBlock m block
        let r := callback context b
        if r.1 = statusNoMoreEntries then ⟨[b], true, r.1⟩
        else
          let rest := enumerateBlocks m callback stop rounds (nextBlock m block) r.1 r.2
          { rest with blocks := b :: rest.blocks }
      else ⟨[], true, status⟩

/-- `PhMappedImageEnumerateRelocations`, as far as it gets in some rounds of its loop. -/
def phMappedImageEnumerateRelocations {σ : Type} (m : Mem) (image : PhMappedImage)
    (callback : RelocCallback σ) (context : σ) (rounds : Nat) :
    Except NtStatus EnumeratedBlocks :=
  ((relocationDirectory image).val m).map fun directory =>
    enumerateBlocks m callback directory.2 rounds directory.1 statusSuccess context

end SystemInformer.PhLib
