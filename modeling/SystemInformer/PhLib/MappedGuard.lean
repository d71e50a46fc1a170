import SystemInformer.PhLib.MappedImage

/-!
# The guard tables of a mapped image (`mapimg.c`)

The load configuration names four tables of RVAs, each with the number of its entries: the
functions of control flow guard, the entries of the import address table whose address is taken,
the targets of `longjmp`, and the continuation points of exception handlers. An entry is an RVA and
as many bytes of metadata as the four highest bits of `GuardFlags` say. The size of a table is
computed in 64 bits and probed once; the entries are read later, by their index.

The load configurations of 32-bit and 64-bit images have the same fields in different places, and
the two versions of each function differ in nothing else.
-/

namespace SystemInformer.PhLib

open Bytes

def statusProcedureNotFound : NtStatus := 0xC000007A

/-! ## Load configurations -/

def imageDirectoryEntryLoadConfig : Nat := 10

/-- Where the fields of a load configuration are; those that hold a pointer or a number of entries
have `fieldSize` bytes. A table is given by the offsets of its pointer and of its number. -/
structure LoadConfigLayout where
  magic : Nat
  size : Nat
  fieldSize : Nat
  guardCFFunctionTable : Nat × Nat
  guardFlags : Nat
  guardAddressTakenIatEntryTable : Nat × Nat
  guardLongJumpTargetTable : Nat × Nat
  guardEHContinuationTable : Nat × Nat

def imageLoadConfigDirectory32 : LoadConfigLayout :=
  ⟨imageNtOptionalHdr32Magic, 192, 4, (80, 84), 88, (104, 108), (112, 116), (164, 168)⟩

def imageLoadConfigDirectory64 : LoadConfigLayout :=
  ⟨imageNtOptionalHdr64Magic, 320, 8, (128, 136), 144, (160, 168), (176, 184), (264, 272)⟩

def phpGetMappedImageLoadConfig (image : PhMappedImage) (layout : LoadConfigLayout) :
    ImageReader Nat := do
  Checked.require (image.magic = layout.magic) statusInvalidParameter
  let entry ← phGetMappedImageDataDirectory image imageDirectoryEntryLoadConfig
  let virtualAddress ← header entry 4
  let loadConfig ← phMappedImageRvaToVa image virtualAddress
  Checked.require (loadConfig ≠ 0) statusInvalidParameter
  phMappedImageProbe image.view loadConfig layout.size
  pure loadConfig

/-- `RTL_CONTAINS_FIELD` for a field of `length` bytes. -/
def rtlContainsField (struct_ size offset length : Nat) : Prop :=
  ptrAddOffset struct_ (offset + length) ≤ ptrAddOffset struct_ size

instance (struct_ size offset length : Nat) :
    Decidable (rtlContainsField struct_ size offset length) :=
  inferInstanceAs (Decidable (_ ≤ _))

/-- The size of an entry: `IMAGE_GUARD_CF_FUNCTION_TABLE_SIZE_MASK` is the highest four bits. -/
def guardEntrySize (guardFlags : Nat) : Nat := 4 + guardFlags / 2 ^ 28 % 16

/-! ## Tables -/

/-- A table, null if there is none, and the number of its entries. -/
structure GuardTable where
  table : Nat
  numberOfEntries : Nat
  deriving DecidableEq

/-- A table whose fields have these offsets. -/
def guardTableAt (image : PhMappedImage) (layout : LoadConfigLayout) (config : Nat)
    (offsets : Nat × Nat) : ImageReader GuardTable := do
  let numberOfEntries ← record (config + offsets.2) layout.fieldSize
  let va ← record (config + offsets.1) layout.fieldSize
  let table ← phMappedImageVaToVa image va
  pure ⟨table, numberOfEntries⟩

/-- The probe of a table; the product is a 64-bit number. -/
def probeGuardTable (image : PhMappedImage) (entrySize : Nat) (table : GuardTable) :
    ImageReader Unit :=
  if table.table ≠ 0 ∧ table.numberOfEntries ≠ 0 then
    phMappedImageProbe image.view table.table (entrySize * table.numberOfEntries % 2 ^ 64)
  else pure ()

/-! ## Control flow guard -/

structure PhMappedImageCfg where
  mappedImage : PhMappedImage
  entrySize : Nat
  cfgInstrumented : Bool
  writeIntegrityChecks : Bool
  cfgFunctionTablePresent : Bool
  securityCookieUnused : Bool
  protectDelayLoadedIat : Bool
  delayLoadInDidatSection : Bool
  enableExportSuppression : Bool
  hasExportSuppressionInfos : Bool
  cfgLongJumpTablePresent : Bool
  guardFunctions : GuardTable
  guardAdressIat : GuardTable
  guardLongJump : GuardTable
  deriving DecidableEq

def optionalGuardTable (image : PhMappedImage) (layout : LoadConfigLayout)
    (config size entrySize : Nat) (offsets : Nat × Nat) : ImageReader GuardTable :=
  if rtlContainsField config size offsets.1 layout.fieldSize then do
    let table ← guardTableAt image layout config offsets
    probeGuardTable image entrySize table
    pure table
  else pure ⟨0, 0⟩

/-- `PhGetMappedImageCfg32` and `PhGetMappedImageCfg64`. -/
def getMappedImageCfg (layout : LoadConfigLayout) (image : PhMappedImage) :
    ImageReader PhMappedImageCfg := do
  let config ← phpGetMappedImageLoadConfig image layout
  let size ← record config 4
  Checked.require (rtlContainsField config size layout.guardFlags 4) statusInvalidViewSize
  let guardFlags ← record (config + layout.guardFlags) 4
  let entrySize := guardEntrySize guardFlags
  let guardFunctions ← guardTableAt image layout config layout.guardCFFunctionTable
  probeGuardTable image entrySize guardFunctions
  let guardAdressIat ← optionalGuardTable image layout config size entrySize
    layout.guardAddressTakenIatEntryTable
  let guardLongJump ← optionalGuardTable image layout config size entrySize
    layout.guardLongJumpTargetTable
  pure
    { mappedImage := image
      entrySize
      cfgInstrumented := guardFlags.testBit 8
      writeIntegrityChecks := guardFlags.testBit 9
      cfgFunctionTablePresent := guardFlags.testBit 10
      securityCookieUnused := guardFlags.testBit 11
      protectDelayLoadedIat := guardFlags.testBit 12
      delayLoadInDidatSection := guardFlags.testBit 13
      enableExportSuppression := guardFlags.testBit 15
      hasExportSuppressionInfos := guardFlags.testBit 14
      cfgLongJumpTablePresent := guardFlags.testBit 16
      guardFunctions
      guardAdressIat
      guardLongJump }

def phGetMappedImageCfg32 : PhMappedImage → ImageReader PhMappedImageCfg :=
  getMappedImageCfg imageLoadConfigDirectory32

def phGetMappedImageCfg64 : PhMappedImage → ImageReader PhMappedImageCfg :=
  getMappedImageCfg imageLoadConfigDirectory64

def phGetMappedImageCfg (image : PhMappedImage) : ImageReader PhMappedImageCfg :=
  if image.magic = imageNtOptionalHdr32Magic then phGetMappedImageCfg32 image
  else phGetMappedImageCfg64 image

/-- `IMAGE_CFG_ENTRY`; entries that consist of an RVA have no flags, and the hash is read for
entries that have one. -/
structure ImageCfgEntry where
  rva : Nat
  flags : Option Nat
  xfgHash : Option Nat
  deriving DecidableEq

/-- `Xfg` among the flags. -/
def xfg (flags : Nat) : Bool := flags.testBit 3

/-- The table of a `CFG_ENTRY_TYPE`. -/
def PhMappedImageCfg.guardTable (config : PhMappedImageCfg) : Nat → Option GuardTable
  | 0 => some config.guardFunctions
  | 1 => some config.guardAdressIat
  | 2 => some config.guardLongJump
  | _ => none

def readCfgEntry (image : PhMappedImage) (entrySize entry : Nat) : ImageReader ImageCfgEntry := do
  let rva ← record entry 4
  if entrySize > 4 then do
    let flags ← record (entry + 4) 1
    if xfg flags then do
      -- The RVA is taken for an offset in the file.
      let function_ := ptrAddOffset image.view.base rva
      let xfgHash ← record (ptrAddOffset function_ (2 ^ 64 - 8)) 8
      pure ⟨rva, some flags, some xfgHash⟩
    else pure ⟨rva, some flags, none⟩
  else pure ⟨rva, none, none⟩

def phGetMappedImageCfgEntry (config : PhMappedImageCfg) (index type : Nat) :
    ImageReader ImageCfgEntry :=
  match config.guardTable type with
  | none => Checked.fail statusInvalidParameter3
  | some table => do
      Checked.require (¬ (table.table = 0 ∨ index ≥ table.numberOfEntries)) statusProcedureNotFound
      readCfgEntry config.mappedImage config.entrySize
        (ptrAddOffset table.table (index * config.entrySize % 2 ^ 64))

/-! ## Continuations of exception handlers -/

structure PhMappedImageEhCont where
  ehCont : GuardTable
  entrySize : Nat
  deriving DecidableEq

/-- `PhGetMappedImageEhCont32` and `PhGetMappedImageEhCont64`. -/
def getMappedImageEhCont (layout : LoadConfigLayout) (image : PhMappedImage) :
    ImageReader PhMappedImageEhCont := do
  let config ← phpGetMappedImageLoadConfig image layout
  let size ← record config 4
  Checked.require (rtlContainsField config size layout.guardEHContinuationTable.2 layout.fieldSize)
    statusInvalidViewSize
  let ehCont ← guardTableAt image layout config layout.guardEHContinuationTable
  let guardFlags ← record (config + layout.guardFlags) 4
  let entrySize := guardEntrySize guardFlags
  probeGuardTable image entrySize ehCont
  pure ⟨ehCont, entrySize⟩

def phGetMappedImageEhCont32 : PhMappedImage → ImageReader PhMappedImageEhCont :=
  getMappedImageEhCont imageLoadConfigDirectory32

def phGetMappedImageEhCont64 : PhMappedImage → ImageReader PhMappedImageEhCont :=
  getMappedImageEhCont imageLoadConfigDirectory64

def phGetMappedImageEhCont (image : PhMappedImage) : ImageReader PhMappedImageEhCont :=
  if image.magic = imageNtOptionalHdr32Magic then phGetMappedImageEhCont32 image
  else phGetMappedImageEhCont64 image

end SystemInformer.PhLib
