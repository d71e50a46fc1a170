import SystemInformer.PhLib.MappedDynamic

/-!
# The exports of a mapped image (`mapimg.c`)

An export directory has three tables: the RVAs of the functions, the RVAs of the names, in the
order of the names, and for each name the index of its function. `PhGetMappedImageExportsEx` probes
them once, with the numbers that the directory gives; a table of names or of indices whose RVA is in
no section is null, and is not probed. The lookups index the tables later, and the search for a name
computes with `LONG`s. A lookup that indexes the table of names where it is not, or through null,
has no result here (`none`): what it does then is not told.

With `PH_GET_IMAGE_EXPORTS_ARM64X` the directory of an ARM64X image is used, of which the headers
hold another one.
-/

namespace SystemInformer.PhLib

open Bytes

structure PhMappedImageExports where
  mappedImage : PhMappedImage
  numberOfEntries : Nat
  dataDirectory : Nat
  dataDirectoryARM64X : ImageDataDirectory
  exportDirectory : Nat
  addressTable : Nat
  namePointerTable : Nat
  ordinalTable : Nat
  deriving DecidableEq

def sizeofImageExportDirectory : Nat := 40

def probeTable (image : PhMappedImage) (table length : Nat) : ImageReader Unit :=
  if table ≠ 0 then phMappedImageProbe image.view table length else pure ()

def exportTables (image : PhMappedImage) (dataDirectory : Nat) (arm64x : ImageDataDirectory)
    (exportDirectory : Nat) : ImageReader PhMappedImageExports := do
  Checked.require (exportDirectory ≠ 0) statusInvalidParameter
  phMappedImageProbe image.view exportDirectory sizeofImageExportDirectory
  let numberOfFunctions ← record (exportDirectory + 20) 4
  let addressOfFunctions ← record (exportDirectory + 28) 4
  let addressTable ← phMappedImageRvaToVa image addressOfFunctions
  let addressOfNames ← record (exportDirectory + 32) 4
  let namePointerTable ← phMappedImageRvaToVa image addressOfNames
  let addressOfNameOrdinals ← record (exportDirectory + 36) 4
  let ordinalTable ← phMappedImageRvaToVa image addressOfNameOrdinals
  Checked.require (addressTable ≠ 0) statusInvalidParameter
  phMappedImageProbe image.view addressTable (numberOfFunctions * 4)
  let numberOfNames ← record (exportDirectory + 24) 4
  probeTable image namePointerTable (numberOfNames * 4)
  probeTable image ordinalTable (numberOfNames * 2)
  pure
    { mappedImage := image
      numberOfEntries := numberOfFunctions
      dataDirectory
      dataDirectoryARM64X := arm64x
      exportDirectory
      addressTable
      namePointerTable
      ordinalTable }

/-- `PhGetMappedImageExportsEx`; the flag is `PH_GET_IMAGE_EXPORTS_ARM64X`. -/
def phGetMappedImageExportsEx (image : PhMappedImage) (arm64x : Bool) :
    ImageReader PhMappedImageExports := do
  let dataDirectory ← phGetMappedImageDataDirectory image imageDirectoryEntryExport
  if arm64x then do
    let relocated ← phRelocateMappedImageDataEntryARM64X image dataDirectory
    let exportDirectory ← phMappedImageRvaToVa image relocated.virtualAddress
    exportTables image dataDirectory relocated exportDirectory
  else do
    let virtualAddress ← header dataDirectory 4
    let exportDirectory ← phMappedImageRvaToVa image virtualAddress
    exportTables image dataDirectory ⟨0, 0⟩ exportDirectory

/-! ## Fields -/

namespace PhMappedImageExports

variable (exports : PhMappedImageExports) (m : Mem)

def base : Nat := field m (exports.exportDirectory + 16) 4

def numberOfFunctions : Nat := field m (exports.exportDirectory + 20) 4

def numberOfNames : Nat := field m (exports.exportDirectory + 24) 4

/-- `AddressTable[i]`. -/
def address (i : Nat) : Nat := field m (exports.addressTable + i * 4) 4

/-- `OrdinalTable[i]`. -/
def ordinal (i : Nat) : Nat := field m (exports.ordinalTable + i * 2) 2

/-- `PhMappedImageRvaToVa`, which never fails. -/
def rvaToVa (rva : Nat) : Nat :=
  match (phMappedImageRvaToVa exports.mappedImage rva).val m with
  | .ok address => address
  | .error _ => 0

def name (i : Nat) : Nat := exports.rvaToVa m (field m (exports.namePointerTable + i * 4) 4)

end PhMappedImageExports

/-! ## Entries -/

structure PhMappedImageExportEntry where
  ordinal : Nat
  hint : Nat
  name : Nat

/-- The loop over the table of indices: the first name of a function. -/
def exportNameIndex (m : Mem) (exports : PhMappedImageExports) (index : Nat) : Option Nat :=
  if exports.ordinalTable ≠ 0 then
    (List.range (exports.numberOfNames m)).find? fun nameIndex =>
      index == exports.ordinal m nameIndex
  else none

def phGetMappedImageExportEntry (m : Mem) (exports : PhMappedImageExports) (index : Nat) :
    Except NtStatus PhMappedImageExportEntry :=
  if index ≥ exports.numberOfFunctions m then .error statusProcedureNotFound
  else
    let ordinal := (index % 2 ^ 16 + exports.base m % 2 ^ 16) % 2 ^ 16
    match exportNameIndex m exports index with
    | some nameIndex =>
        if exports.namePointerTable ≠ 0 then
          if exports.name m nameIndex = 0 then .error statusInvalidParameter
          else .ok ⟨ordinal, nameIndex, exports.name m nameIndex⟩
        else .ok ⟨ordinal, 0, 0⟩
    | none => .ok ⟨ordinal, 0, 0⟩

/-! ## Names -/

/-- A string without its terminator. -/
structure PcStr where
  chars : List UInt8
  zero_notMem : 0 ∉ chars

/-- `strcmp` with the string at an address. -/
def strcmp (m : Mem) : List UInt8 → Nat → Ordering
  | [], address => if m address = 0 then .eq else .lt
  | c :: string, address =>
      if c = m address then strcmp m string (address + 1)
      else if c < m address then .lt
      else .gt

/-- The rounds of the search with `low <= high`, both of them `LONG`s that are not negative.
The sum is a `LONG` as well, so from `2 ^ 31` on it is negative, and so is the index. -/
def lookupLoop (m : Mem) (exports : PhMappedImageExports) (string : PcStr) (low high : Nat) :
    Option (Option Nat) :=
  if low + high ≥ 2 ^ 31 then none
  else
    let i := (low + high) / 2
    if exports.namePointerTable = 0 ∨ i ≥ exports.numberOfNames m then none
    else if exports.name m i = 0 then some none
    else
      match strcmp m string.chars (exports.name m i) with
      | .eq => some (some i)
      | .lt => if low < i then lookupLoop m exports string low (i - 1) else some none
      | .gt => if i < high then lookupLoop m exports string (i + 1) high else some none
termination_by high - low

/-- `PhLookupMappedImageExportName`, with `some none` for `ULONG_MAX`. -/
def phLookupMappedImageExportName (m : Mem) (exports : PhMappedImageExports) (string : PcStr) :
    Option (Option Nat) :=
  if exports.numberOfNames m = 0 then some none
  -- As a `LONG`, `high` is negative then, and so is the first index.
  else if exports.numberOfNames m - 1 ≥ 2 ^ 31 then none
  else lookupLoop m exports string 0 (exports.numberOfNames m - 1)

/-! ## Functions -/

def exportAddress (m : Mem) (exports : PhMappedImageExports) (ordinal : Nat) :
    Except NtStatus Nat :=
  let ordinal := (ordinal + (2 ^ 16 - exports.base m % 2 ^ 16)) % 2 ^ 16
  if ordinal ≥ exports.numberOfFunctions m then .error statusProcedureNotFound
  else .ok (exports.address m ordinal)

/-- The RVA of a function that is given by its name, if there is one, or by its ordinal. -/
def findExportAddress (m : Mem) (exports : PhMappedImageExports) (name : Option PcStr)
    (ordinal : Nat) : Option (Except NtStatus Nat) :=
  match name with
  | none => some (exportAddress m exports ordinal)
  | some string =>
      match phLookupMappedImageExportName m exports string with
      | none => none
      | some none => some (.error statusProcedureNotFound)
      | some (some index) =>
          if exports.ordinalTable = 0 then none
          else some (exportAddress m exports
            ((exports.ordinal m index + exports.base m % 2 ^ 16) % 2 ^ 16))

/-- The test for the RVA of a forwarder; the end of the directory is a `ULONG`. -/
def isForwarder (m : Mem) (exports : PhMappedImageExports) (rva : Nat) : Prop :=
  rva ≥ field m exports.dataDirectory 4 ∧
    rva < (field m exports.dataDirectory 4 + field m (exports.dataDirectory + 4) 4) % 2 ^ 32

instance (m : Mem) (exports : PhMappedImageExports) (rva : Nat) :
    Decidable (isForwarder m exports rva) := inferInstanceAs (Decidable (_ ∧ _))

structure PhMappedImageExportFunction where
  function : Nat
  forwardedName : Nat
  deriving DecidableEq

def exportFunction (m : Mem) (exports : PhMappedImageExports) (rva : Nat) :
    Except NtStatus PhMappedImageExportFunction :=
  if isForwarder m exports rva then
    if exports.rvaToVa m rva = 0 then .error statusInvalidParameter
    else .ok ⟨rva, exports.rvaToVa m rva⟩
  else .ok ⟨rva, 0⟩

def phGetMappedImageExportFunction (m : Mem) (exports : PhMappedImageExports)
    (name : Option PcStr) (ordinal : Nat) :
    Option (Except NtStatus PhMappedImageExportFunction) :=
  (findExportAddress m exports name ordinal).map fun rva => rva.bind (exportFunction m exports)

end SystemInformer.PhLib
