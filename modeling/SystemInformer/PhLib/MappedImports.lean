import SystemInformer.PhLib.MappedImage

/-!
# The imports of a mapped image (`mapimg.c`)

Import descriptors, delay import descriptors and thunks stand in tables that a record of zeros
ends. `PhGetMappedImageImports`, `PhGetMappedImageDelayImports` and `PhGetMappedImageImportDll`
count the records before it, with a probe of each record and a counter that is a `ULONG`. The four
loops differ in the size of a record, in what is probed of it and in the fields that must be zero,
which is what a `RecordLayout` tells.

A delay import descriptor has 32 bytes; what is probed of it is the size of a pointer to one.
-/

namespace SystemInformer.PhLib

open Bytes

/-! ## Tables -/

/-- How a table is scanned: the size of a record, what is probed of it, and the offset and the
length of each field that is zero in the last record. -/
structure RecordLayout where
  stride : Nat
  probed : Nat
  terminator : List (Nat × Nat)
  stride_pos : 0 < stride
  stride_le : stride ≤ 0x10000
  probed_pos : 0 < probed
  probed_le : probed ≤ 0x10000

/-- Whether all these fields of the record are zero; the first that is not ends the search. -/
def allZero (address : Nat) : List (Nat × Nat) → ImageReader Bool
  | [] => pure true
  | (offset, length) :: fields => do
      if (← record (address + offset) length) = 0 then allZero address fields else pure false

theorem ImageView.left_next {view : ImageView} {layout : RecordLayout} {address : Nat}
    (h : view.Probes address layout.probed) :
    view.left (ptrAddOffset address layout.stride) < view.left address := by
  have hfits := view.fits
  have hbase := view.base_le
  obtain ⟨hpos, hle⟩ := And.intro layout.stride_pos layout.stride_le
  obtain ⟨hpos', hle'⟩ := And.intro layout.probed_pos layout.probed_le
  obtain ⟨hlo, hhi⟩ := (ImageView.probes_iff (by omega) (by omega)).mp h
  rw [ImageView.left, ImageView.left, ptrAddOffset, if_pos hlo]
  rcases Nat.lt_or_ge (address + layout.stride) (2 ^ 64) with h | h
  · rw [Nat.mod_eq_of_lt h]
    split
    · omega
    · omega
  · rw [if_neg (by omega)]
    omega

/-- The scans; the probe is `PhMappedImageProbe`. -/
def countRecords (view : ImageView) (layout : RecordLayout) (address i : Nat) : ImageReader Nat :=
  if h : view.Probes address layout.probed then do
    if ← allZero address layout.terminator then pure i
    else countRecords view layout (ptrAddOffset address layout.stride) ((i + 1) % 2 ^ 32)
  else Checked.fail statusAccessViolation
termination_by view.left address
decreasing_by exact ImageView.left_next h

/-! ## Descriptors -/

/-- `IMAGE_IMPORT_DESCRIPTOR`: `OriginalFirstThunk` and `FirstThunk` are zero in the last one. -/
def imageImportDescriptor : RecordLayout :=
  ⟨20, 20, [(0, 4), (16, 4)], by omega, by omega, by omega, by omega⟩

/-- `IMAGE_DELAYLOAD_DESCRIPTOR`: `ImportAddressTableRVA` and `ImportNameTableRVA` are zero in the
last one. -/
def imageDelayloadDescriptor : RecordLayout :=
  ⟨32, 8, [(12, 4), (16, 4)], by omega, by omega, by omega, by omega⟩

/-- The flag says which of the two descriptors there are (`PH_MAPPED_IMAGE_DELAY_IMPORTS`). -/
def importDescriptor (delayImports : Bool) : RecordLayout :=
  if delayImports then imageDelayloadDescriptor else imageImportDescriptor

structure PhMappedImageImports where
  mappedImage : PhMappedImage
  delayImports : Bool
  numberOfDlls : Nat
  descriptorTable : Nat

def importTable (image : PhMappedImage) (directory : Nat) : ImageReader Nat := do
  let dataDirectory ← phGetMappedImageDataDirectory image directory
  let virtualAddress ← header dataDirectory 4
  let descriptor ← phMappedImageRvaToVa image virtualAddress
  Checked.require (descriptor ≠ 0) statusInvalidParameter
  pure descriptor

def getMappedImageImports (image : PhMappedImage) (delayImports : Bool) (directory : Nat) :
    ImageReader PhMappedImageImports := do
  let descriptor ← importTable image directory
  let i ← countRecords image.view (importDescriptor delayImports) descriptor 0
  pure ⟨image, delayImports, i, descriptor⟩

def phGetMappedImageImports (image : PhMappedImage) : ImageReader PhMappedImageImports :=
  getMappedImageImports image false imageDirectoryEntryImport

def phGetMappedImageDelayImports (image : PhMappedImage) : ImageReader PhMappedImageImports :=
  getMappedImageImports image true imageDirectoryEntryDelayImport

/-! ## Thunks -/

def imageThunkData32 : RecordLayout := ⟨4, 4, [(0, 4)], by omega, by omega, by omega, by omega⟩

def imageThunkData64 : RecordLayout := ⟨8, 8, [(0, 8)], by omega, by omega, by omega, by omega⟩

def imageThunkData (image : PhMappedImage) : RecordLayout :=
  if image.magic = imageNtOptionalHdr32Magic then imageThunkData32 else imageThunkData64

structure PhMappedImageImportDll where
  mappedImage : PhMappedImage
  delayImports : Bool
  numberOfEntries : Nat
  name : Nat
  descriptor : Nat
  lookupTable : Nat

/-- `Attributes.RvaBased` of a delay import descriptor. -/
def rvaBased (descriptor : Nat) : ImageReader Bool := do
  let attributes ← record descriptor 4
  pure (attributes.testBit 0)

/-- A pointer from a delay import descriptor, which holds an RVA or a VA. -/
def delayPointer (image : PhMappedImage) (rvaBased : Bool) (value : Nat) : ImageReader Nat :=
  if rvaBased then phMappedImageRvaToVa image (value % 2 ^ 32) else phMappedImageVaToVa image value

/-- `Name` and `LookupTable` of a DLL. -/
def importDllPointers (image : PhMappedImage) (delayImports : Bool) (descriptor : Nat) :
    ImageReader (Nat × Nat) :=
  if delayImports = false then do
    let nameRva ← record (descriptor + 12) 4
    let name ← phMappedImageRvaToVa image nameRva
    Checked.require (name ≠ 0) statusInvalidParameter
    let originalFirstThunk ← record descriptor 4
    if originalFirstThunk ≠ 0 then do
      let lookupTable ← phMappedImageRvaToVa image originalFirstThunk
      pure (name, lookupTable)
    else do
      let firstThunk ← record (descriptor + 16) 4
      let lookupTable ← phMappedImageRvaToVa image firstThunk
      pure (name, lookupTable)
  else do
    let rvaBased ← rvaBased descriptor
    let dllNameRva ← record (descriptor + 4) 4
    let name ← delayPointer image rvaBased dllNameRva
    Checked.require (name ≠ 0) statusInvalidParameter
    let importNameTableRva ← record (descriptor + 16) 4
    let lookupTable ← delayPointer image rvaBased importNameTableRva
    pure (name, lookupTable)

def phGetMappedImageImportDll (imports : PhMappedImageImports) (index : Nat) :
    ImageReader PhMappedImageImportDll := do
  let image := imports.mappedImage
  Checked.require (¬ index ≥ imports.numberOfDlls) statusInvalidParameter2
  let descriptor := ptrAddOffset imports.descriptorTable
    (index * (importDescriptor imports.delayImports).stride)
  let pointers ← importDllPointers image imports.delayImports descriptor
  Checked.require (pointers.2 ≠ 0) statusInvalidParameter
  Checked.require (image.magic = imageNtOptionalHdr32Magic ∨
    image.magic = imageNtOptionalHdr64Magic) statusInvalidParameter
  let i ← countRecords image.view (imageThunkData image) pointers.2 0
  pure ⟨image, imports.delayImports, i, pointers.1, descriptor, pointers.2⟩

/-! ## Entries -/

/-- `PH_MAPPED_IMAGE_IMPORT_ENTRY`: the pointer to a name, and the hint; or null, and the
ordinal. -/
structure PhMappedImageImportEntry where
  name : Nat
  ordinal : Nat

def sizeofImageImportByName : Nat := 4

/-- The pointer to the hint and the name. -/
def importByName (dll : PhMappedImageImportDll) (addressOfData : Nat) : ImageReader Nat :=
  if dll.delayImports then do
    let rvaBased ← rvaBased dll.descriptor
    delayPointer dll.mappedImage rvaBased addressOfData
  else phMappedImageRvaToVa dll.mappedImage (addressOfData % 2 ^ 32)

def phGetMappedImageImportEntry (dll : PhMappedImageImportDll) (index : Nat) :
    ImageReader PhMappedImageImportEntry := do
  let image := dll.mappedImage
  Checked.require (¬ index ≥ dll.numberOfEntries) statusInvalidParameter2
  Checked.require (image.magic = imageNtOptionalHdr32Magic ∨
    image.magic = imageNtOptionalHdr64Magic) statusInvalidParameter
  let size := (imageThunkData image).stride
  let entry ← record (ptrAddOffset dll.lookupTable (index * size)) size
  -- The highest bit says that the entry is an ordinal.
  if entry.testBit (8 * size - 1) then pure ⟨0, entry % 2 ^ 16⟩
  else do
    let importByName ← importByName dll entry
    Checked.require (importByName ≠ 0) statusInvalidParameter
    phMappedImageProbe image.view importByName sizeofImageImportByName
    let hint ← record importByName 2
    pure ⟨importByName + 2, hint⟩

end SystemInformer.PhLib
