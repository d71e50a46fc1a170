import SystemInformer.PhLib.MappedGuard

/-!
# Dynamic relocations of a mapped image (`mapimg.c`)

The dynamic relocation table is a sequence of relocations, each for a symbol. Those for the symbol
`IMAGE_DYNAMIC_RELOCATION_ARM64X` consist of blocks, and the blocks of records, which say how an
ARM64X image differs from the file. `PhRelocateMappedImageDataEntryARM64X` looks in them for the
values of a directory entry.

Each of the three loops steps by a size that it reads from the file and ends when a step leaves a
range. The range of the records is what the block says it is, and the range of the blocks what the
relocation says; neither is compared with the table. `PhPtrAdvance` only lets a pointer go up, and
it goes up in every round, so the loops are defined by recursion on what is left of the range.
-/

namespace SystemInformer.PhLib

open Bytes

/-! ## Pointers that only go up -/

def phPtrAddOffset (pointer offset : Nat) : Option Nat :=
  let next := ptrAddOffset pointer offset
  if next < pointer then none else some next

def phPtrAdvance (pointer endPointer offset : Nat) : Option Nat :=
  match phPtrAddOffset pointer offset with
  | none => none
  | some next => if next ≥ endPointer then none else some next

theorem phPtrAdvance_some {pointer endPointer offset next : Nat}
    (h : phPtrAdvance pointer endPointer offset = some next) :
    next = ptrAddOffset pointer offset ∧ pointer ≤ next ∧ next < endPointer := by
  rw [phPtrAdvance, phPtrAddOffset] at h
  split at h
  · cases h
  · next hadd =>
      split at hadd
      · cases hadd
      · next hle =>
          obtain rfl := Option.some.inj hadd
          split at h
          · cases h
          · next hlt =>
              obtain rfl := Option.some.inj h
              exact ⟨rfl, Nat.not_lt.mp hle, Nat.not_le.mp hlt⟩

/-- A step by a length that does not vanish. -/
theorem phPtrAdvance_lt {pointer endPointer offset next : Nat}
    (h : phPtrAdvance pointer endPointer offset = some next) (hpos : 0 < offset)
    (hlt : offset < 2 ^ 64) : pointer < next ∧ next < endPointer := by
  obtain ⟨rfl, hle, hend⟩ := phPtrAdvance_some h
  refine ⟨?_, hend⟩
  rw [ptrAddOffset] at hle ⊢
  omega

/-! ## The table -/

def imageDynamicRelocationArm64x : Nat := 6

def sizeofImageDynamicRelocationTable : Nat := 8

/-- `IMAGE_DYNAMIC_RELOCATION64` through the field `BaseRelocSize`. -/
def sizeofImageDynamicRelocation64 : Nat := 12

/-- Where a load configuration has `DynamicValueRelocTable`, `DynamicValueRelocTableOffset` and
`DynamicValueRelocTableSection`. -/
structure DynamicTableFields where
  table : Nat
  tableOffset : Nat
  tableSection : Nat

/-- A field, or zero if the load configuration is too short for it. -/
def configField (config size offset length : Nat) : ImageReader Nat :=
  if rtlContainsField config size offset length then record (config + offset) length else pure 0

/-- The table at an offset in a section; null if it is not there. -/
def sectionTable (image : PhMappedImage) (tableSection tableOffset : Nat) : ImageReader Nat :=
  if tableSection ≤ image.numberOfSections then do
    let section_ := image.sections + (tableSection - 1) * sizeofImageSectionHeader
    let pointerToRawData ← header (section_ + 20) 4
    let sizeOfRawData ← header (section_ + 16) 4
    if ptrAddOffset pointerToRawData tableOffset < ptrAddOffset pointerToRawData sizeOfRawData then
      pure (ptrAddOffset image.view.base (ptrAddOffset pointerToRawData tableOffset))
    else pure 0
  else pure 0

/-- One of the two branches of `PhGetMappedImageDynamicRelocationsTable`. -/
def locateDynamicTable (image : PhMappedImage) (layout : LoadConfigLayout)
    (fields : DynamicTableFields) : ImageReader Nat := do
  let config ← phpGetMappedImageLoadConfig image layout
  let size ← record config 4
  let dynamicValueRelocTable ← configField config size fields.table layout.fieldSize
  if dynamicValueRelocTable ≠ 0 then phMappedImageRvaToVa image (dynamicValueRelocTable % 2 ^ 32)
  else do
    let tableOffset ← configField config size fields.tableOffset 4
    let tableSection ← configField config size fields.tableSection 2
    if tableOffset ≠ 0 ∧ tableSection ≠ 0 then sectionTable image tableSection tableOffset
    else pure 0

def dynamicTableOfMagic (image : PhMappedImage) : ImageReader Nat :=
  if image.magic = imageNtOptionalHdr32Magic then
    locateDynamicTable image imageLoadConfigDirectory32 ⟨120, 136, 140⟩
  else if image.magic = imageNtOptionalHdr64Magic then
    locateDynamicTable image imageLoadConfigDirectory64 ⟨192, 224, 228⟩
  else Checked.fail statusInvalidImageFormat

def phGetMappedImageDynamicRelocationsTable (image : PhMappedImage) : ImageReader Nat := do
  let table ← dynamicTableOfMagic image
  Checked.require (table ≠ 0) statusInvalidParameter
  phMappedImageProbe image.view table sizeofImageDynamicRelocationTable
  let size ← record (table + 4) 4
  phMappedImageProbe image.view (ptrAddOffset table sizeofImageDynamicRelocationTable) size
  pure table

/-! ## Records -/

/-- The bit fields of an `IMAGE_DVRT_ARM64X_FIXUP_RECORD`. -/
def fixupOffset (record_ : Nat) : Nat := record_ % 2 ^ 12

def fixupType (record_ : Nat) : Nat := record_ / 2 ^ 12 % 4

def fixupSize (record_ : Nat) : Nat := record_ / 2 ^ 14 % 4

def imageDvrtArm64xFixupTypeZerofill : Nat := 0
def imageDvrtArm64xFixupTypeValue : Nat := 1
def imageDvrtArm64xFixupTypeDelta : Nat := 2

def imageDvrtArm64xFixupSize2Bytes : Nat := 1
def imageDvrtArm64xFixupSize4Bytes : Nat := 2
def imageDvrtArm64xFixupSize8Bytes : Nat := 3

/-- A record of zero fills a block up. -/
def isPadding (record_ : Nat) : Prop :=
  fixupOffset record_ = 0 ∧ fixupType record_ = 0 ∧ fixupSize record_ = 0

instance (record_ : Nat) : Decidable (isPadding record_) := inferInstanceAs (Decidable (_ ∧ _))

/-- The length of a record with its value, if it is one that is known. -/
def fixupConsumed (record_ : Nat) : Option Nat :=
  if fixupType record_ = imageDvrtArm64xFixupTypeZerofill then some 2
  else if fixupType record_ = imageDvrtArm64xFixupTypeValue then
    if fixupSize record_ = imageDvrtArm64xFixupSize2Bytes then some (2 + 2)
    else if fixupSize record_ = imageDvrtArm64xFixupSize4Bytes then some (2 + 4)
    else if fixupSize record_ = imageDvrtArm64xFixupSize8Bytes then some (2 + 8)
    else none
  else if fixupType record_ = imageDvrtArm64xFixupTypeDelta then some (2 + 2)
  else none

theorem fixupConsumed_bounds {record_ consumed : Nat} (h : fixupConsumed record_ = some consumed) :
    2 ≤ consumed ∧ consumed ≤ 10 := by
  simp only [fixupConsumed] at h
  split_ifs at h
  all_goals
    obtain rfl := Option.some.inj h
    omega

def isValue4 (record_ : Nat) : Prop :=
  fixupType record_ = imageDvrtArm64xFixupTypeValue ∧
    fixupSize record_ = imageDvrtArm64xFixupSize4Bytes

instance (record_ : Nat) : Decidable (isValue4 record_) := inferInstanceAs (Decidable (_ ∧ _))

/-! ## The search -/

structure ImageDataDirectory where
  virtualAddress : Nat
  size : Nat
  deriving DecidableEq

/-- The RVAs that are still looked for, zero for those that were found, and the values. -/
structure Arm64xSearch where
  vaRva : Nat
  sizeRva : Nat
  relocated : ImageDataDirectory
  deriving DecidableEq

/-- `PH_ARM64X_DIR_FIX_DONE`. -/
def Arm64xSearch.done (s : Arm64xSearch) : Prop := s.vaRva = 0 ∧ s.sizeRva = 0

instance (s : Arm64xSearch) : Decidable s.done := inferInstanceAs (Decidable (_ ∧ _))

/-- What a value of four bytes at an RVA changes. -/
def Arm64xSearch.fix (s : Arm64xSearch) (rva value : Nat) : Arm64xSearch :=
  if s.vaRva ≠ 0 ∧ s.vaRva = rva then
    { s with vaRva := 0, relocated := { s.relocated with virtualAddress := value } }
  else if s.sizeRva ≠ 0 ∧ s.sizeRva = rva then
    { s with sizeRva := 0, relocated := { s.relocated with size := value } }
  else s

def fixupRecord (base record_ word : Nat) (s : Arm64xSearch) : ImageReader Arm64xSearch :=
  if isValue4 word then do
    let virtualAddress ← record base 4
    let value ← record (record_ + 2) 4
    pure (s.fix ((virtualAddress + fixupOffset word) % 2 ^ 32) value)
  else pure s

def searchRecords (base recordsEnd record_ : Nat) (s : Arm64xSearch) : ImageReader Arm64xSearch := do
  let word ← record record_ 2
  if isPadding word then pure s
  else
    match _hconsumed : fixupConsumed word with
    | none => pure s
    | some consumed => do
        let s ← fixupRecord base record_ word s
        if s.done then pure s
        else
          match _hnext : phPtrAdvance record_ recordsEnd consumed with
          | none => pure s
          | some next => searchRecords base recordsEnd next s
termination_by recordsEnd - record_
decreasing_by
  have hbounds := fixupConsumed_bounds _hconsumed
  have hlt := phPtrAdvance_lt _hnext (by omega) (by omega)
  omega

def searchBlocks (baseEnd base : Nat) (s : Arm64xSearch) : ImageReader Arm64xSearch := do
  let sizeOfBlock ← record (base + 4) 4
  let recordsEnd := ptrAddOffset base sizeOfBlock
  match _hfirst : phPtrAdvance base recordsEnd 8 with
  | none => pure s
  | some first => do
      let s ← searchRecords base recordsEnd first s
      if s.done then pure s
      else
        match _hnext : phPtrAdvance base baseEnd sizeOfBlock with
        | none => pure s
        | some next => searchBlocks baseEnd next s
termination_by baseEnd - base
decreasing_by
  have hprogress := phPtrAdvance_lt _hfirst (by omega) (by omega)
  obtain ⟨rfl, -, hlt⟩ := phPtrAdvance_some _hnext
  omega

/-- The blocks of a relocation, if it is one for ARM64X. -/
def searchRelocation (reloc : Nat) (s : Arm64xSearch) : ImageReader Arm64xSearch := do
  let symbol ← record reloc 8
  if symbol = imageDynamicRelocationArm64x then do
    let base := ptrAddOffset reloc sizeofImageDynamicRelocation64
    let baseRelocSize ← record (reloc + 8) 4
    searchBlocks (ptrAddOffset base baseRelocSize) base s
  else pure s

/-- The relocation behind a relocation: past its blocks, and past the header. -/
def nextRelocation (reloc stop baseRelocSize : Nat) : Option Nat :=
  match phPtrAdvance reloc stop baseRelocSize with
  | none => none
  | some skipped => phPtrAdvance skipped stop sizeofImageDynamicRelocation64

theorem nextRelocation_lt {reloc stop baseRelocSize next : Nat}
    (h : nextRelocation reloc stop baseRelocSize = some next) : reloc < next ∧ next < stop := by
  rw [nextRelocation] at h
  split at h
  · cases h
  · next hskip =>
      obtain ⟨-, hle, -⟩ := phPtrAdvance_some hskip
      obtain ⟨hlt, hend⟩ := phPtrAdvance_lt h (Nat.succ_pos 11)
        (by rw [sizeofImageDynamicRelocation64]; omega)
      exact ⟨hle.trans_lt hlt, hend⟩

/-- The loop over the relocations, with what is done with each. -/
def searchRelocations (searchIn : Nat → Arm64xSearch → ImageReader Arm64xSearch)
    (stop reloc : Nat) (s : Arm64xSearch) : ImageReader Arm64xSearch :=
  if reloc < stop then do
    let s ← searchIn reloc s
    if s.done then pure s
    else do
      let baseRelocSize ← record (reloc + 8) 4
      match _hnext : nextRelocation reloc stop baseRelocSize with
      | none => pure s
      | some next => searchRelocations searchIn stop next s
  else pure s
termination_by stop - reloc
decreasing_by
  obtain ⟨hlt, hend⟩ := nextRelocation_lt _hnext
  omega

/-- The offset of an address in the view, as a `ULONG`. -/
def viewOffset (image : PhMappedImage) (address : Nat) : Nat :=
  (address + (2 ^ 64 - image.view.base)) % 2 ^ 32

def phRelocateMappedImageDataEntryARM64X (image : PhMappedImage) (entry : Nat) :
    ImageReader ImageDataDirectory := do
  Checked.require (image.magic = imageNtOptionalHdr64Magic) statusInvalidParameter
  let table ← phGetMappedImageDynamicRelocationsTable image
  let version ← record table 4
  Checked.require (version = 1) statusNotSupported
  let size ← record (table + 4) 4
  let s ← searchRelocations searchRelocation (ptrAddOffset table size)
    (ptrAddOffset table sizeofImageDynamicRelocationTable)
    ⟨viewOffset image entry, viewOffset image (entry + 4), ⟨0, 0⟩⟩
  Checked.require s.done statusInvalidParameter
  pure s.relocated

end SystemInformer.PhLib
