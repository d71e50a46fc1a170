import SystemInformer.PhLib.MappedImage

/-!
# Tables that are copied out of a mapped image (`mapimg.c`)

The debug directory, the POGO data, the product identifiers in front of the NT headers, the TLS
callbacks and the resources are copied to an array, and the array is returned with a number of
entries. In some of these functions the number is the one that was reckoned before, by a loop or a
division; in others it is that of the array. A `ULONG` holds it in any case.

The strings of the POGO data and the TLS callbacks have no bound but their terminator. Loops over
them are given a number of rounds and have no result when those do not suffice. Left out are what
does not come from the image's tables: the hashes of the product identifiers, the text of their
key, and the conversion of the names.
-/

namespace SystemInformer.PhLib

open Bytes

def statusFailCheck : NtStatus := 0xC0000229

/-- An array of entries and the number that is returned with it. -/
structure Reported (α : Type) where
  numberOfEntries : Nat
  entries : List α

/-! ## Debug directory -/

def imageDirectoryEntryDebug : Nat := 6

def sizeofImageDebugDirectory : Nat := 28

structure PhImageDebugEntry where
  characteristics : Nat
  timeDateStamp : Nat
  majorVersion : Nat
  minorVersion : Nat
  type : Nat
  sizeOfData : Nat
  addressOfRawData : Nat
  pointerToRawData : Nat

/-- Where the directory begins, and the number of its records; a missing section has a status of
its own in each of the two functions. -/
def debugDirectory (image : PhMappedImage) (noSection : NtStatus) : ImageReader (Nat × Nat) := do
  let dataDirectory ← phGetMappedImageDataDirectory image imageDirectoryEntryDebug
  let virtualAddress ← header dataDirectory 4
  let directory ← phMappedImageRvaToVa image virtualAddress
  Checked.require (directory ≠ 0) noSection
  phMappedImageProbe image.view directory sizeofImageDebugDirectory
  let size ← header (dataDirectory + 4) 4
  pure (directory, size / sizeofImageDebugDirectory)

def debugItem (directory i : Nat) : Nat := ptrAddOffset directory (i * sizeofImageDebugDirectory)

def debugEntry (item : Nat) : ImageReader PhImageDebugEntry := do
  let characteristics ← record item 4
  let timeDateStamp ← record (item + 4) 4
  let majorVersion ← record (item + 8) 2
  let minorVersion ← record (item + 10) 2
  let type ← record (item + 12) 4
  let sizeOfData ← record (item + 16) 4
  let addressOfRawData ← record (item + 20) 4
  let pointerToRawData ← record (item + 24) 4
  pure ⟨characteristics, timeDateStamp, majorVersion, minorVersion, type, sizeOfData,
    addressOfRawData, pointerToRawData⟩

/-- The loop of `PhGetMappedImageDebug`, with the number of records that are left. -/
def debugEntries (view : ImageView) (directory : Nat) :
    Nat → Nat → ImageReader (List PhImageDebugEntry)
  | 0, _ => pure []
  | left + 1, i =>
      if view.Probes (debugItem directory i) sizeofImageDebugDirectory then do
        let entry ← debugEntry (debugItem directory i)
        let entries ← debugEntries view directory left (i + 1)
        pure (entry :: entries)
      else pure []

def phGetMappedImageDebug (image : PhMappedImage) : ImageReader (Reported PhImageDebugEntry) := do
  let directory ← debugDirectory image statusInvalidParameter
  let entries ← debugEntries image.view directory.1 directory.2 0
  pure ⟨directory.2, entries⟩

/-- The loop of `PhGetMappedImageDebugEntryByType`. -/
def debugEntryByType (image : PhMappedImage) (directory type : Nat) :
    Nat → Nat → ImageReader (Nat × Nat)
  | 0, _ => Checked.fail statusUnsuccessful
  | left + 1, i =>
      let item := debugItem directory i
      if image.view.Probes item sizeofImageDebugDirectory then do
        if (← record (item + 12) 4) = type then do
          let sizeOfData ← record (item + 16) 4
          let pointerToRawData ← record (item + 24) 4
          pure (sizeOfData, ptrAddOffset image.view.base pointerToRawData)
        else debugEntryByType image directory type left (i + 1)
      else Checked.fail statusUnsuccessful

def phGetMappedImageDebugEntryByType (image : PhMappedImage) (type : Nat) :
    ImageReader (Nat × Nat) := do
  let directory ← debugDirectory image statusUnsuccessful
  debugEntryByType image directory.1 type directory.2 0

/-! ## POGO data -/

def imageDebugTypePogo : Nat := 13

def sizeofImageDebugPogoEntry : Nat := 12

def imageDebugPogoSignatureLtcg : Nat := 0x4C544347

def imageDebugPogoSignaturePgu : Nat := 0x50475500

/-- `PH_IMAGE_DEBUG_POGO_ENTRY`, with the address of the name. -/
structure PhImageDebugPogoEntry where
  rva : Nat
  size : Nat
  data : Nat
  name : Nat

/-- `strlen`, in so many rounds; there is nothing behind the last address. -/
def strlen (m : Mem) : Nat → Nat → Option Nat
  | 0, _ => none
  | rounds + 1, a =>
      if a ≥ 2 ^ 64 then none
      else if m a = 0 then some 0
      else (strlen m rounds (a + 1)).map (· + 1)

def alignUp (n alignment : Nat) : Nat := (n + alignment - 1) / alignment * alignment

def nextPogoEntry (m : Mem) (rounds entry : Nat) : Option Nat :=
  (strlen m rounds (entry + 8)).map fun length => ptrAddOffset entry (alignUp (8 + length + 1) 4)

/-- The first loop; the result are the entries that it counts. The names are searched in `limit`
rounds. -/
def walkPogo (view : ImageView) (m : Mem) (limit stop : Nat) :
    Nat → Nat → Except NtStatus (Option (List Nat))
  | 0, _ => .ok none
  | rounds + 1, entry =>
      if entry < stop then
        if view.Probes entry sizeofImageDebugPogoEntry then
          match nextPogoEntry m limit entry with
          | none => .ok none
          | some next => (walkPogo view m limit stop rounds next).map (·.map (entry :: ·))
        else .error statusAccessViolation
      else .ok (some [])

def copyPogo (m : Mem) (image : PhMappedImage) (limit stop : Nat) :
    Nat → Nat → Option (List PhImageDebugPogoEntry)
  | 0, _ => none
  | rounds + 1, entry =>
      if entry < stop then
        if field m entry 4 ≠ 0 ∧ field m (entry + 4) 4 ≠ 0 then
          match nextPogoEntry m limit entry with
          | none => none
          | some next => (copyPogo m image limit stop rounds next).map (⟨field m entry 4,
              field m (entry + 4) 4, pogoData m image (field m entry 4), entry + 8⟩ :: ·)
        else some []
      else some []
where
  pogoData (m : Mem) (image : PhMappedImage) (rva : Nat) : Nat :=
    match (phMappedImageRvaToVa image rva).val m with
    | .ok va => va
    | .error _ => 0

def pogoExtents (image : PhMappedImage) : ImageReader (Nat × Nat) := fun m =>
  match (phGetMappedImageDebugEntryByType image imageDebugTypePogo).val m with
  | .error _ => (Checked.fail statusUnsuccessful : ImageReader (Nat × Nat)) m
  | .ok data => (checkPogoSignature image data.1 data.2) m
where
  /-- A signature of zero may stand before entries. -/
  checkPogoSignature (image : PhMappedImage) (length debugEntry : Nat) :
      ImageReader (Nat × Nat) := do
    phMappedImageProbe image.view debugEntry 4
    let signature ← record debugEntry 4
    Checked.require (¬ ((signature ≠ imageDebugPogoSignatureLtcg ∧
      signature ≠ imageDebugPogoSignaturePgu) ∧ ¬ (signature = 0 ∧ length > 4)))
      statusUnsuccessful
    pure (ptrAddOffset debugEntry 4, ptrAddOffset debugEntry length)

/-- `PhGetMappedImagePogo`, in so many rounds of each loop. -/
def phGetMappedImagePogo (image : PhMappedImage) (rounds : Nat) :
    ImageReader (Option (Reported PhImageDebugPogoEntry)) := do
  let extents ← pogoExtents image
  let counted ← Checked.ofMem (walkPogo image.view · rounds extents.2 rounds extents.1)
  let entries ← Checked.ofMem fun m => .ok (copyPogo m image rounds extents.2 rounds extents.1)
  pure (match counted, entries with
    | some counted, some entries => some ⟨counted.length % 2 ^ 32, entries⟩
    | _, _ => none)

/-! ## Product identifiers -/

def prodIdTagStart : Nat := 0x68636952

def prodIdTagEnd : Nat := 0x536e6144

def sizeofProdItem : Nat := 8

structure PhMappedImageProdIdEntry where
  productId : Nat
  productBuild : Nat
  productCount : Nat

/-- The addresses from `start` down to `stop`, four bytes apart. -/
def downFrom (start stop : Nat) : List Nat :=
  if start < stop then [] else (List.range ((start - stop) / 4 + 1)).map (start - 4 * ·)

/-- Where the product identifiers begin, where they end, and their key. -/
structure ProdIdExtents where
  start : Nat
  stop : Nat
  key : Nat

/-- What `PhGetMappedImageProdIdHeader` finds and checks before it counts. -/
def prodIdExtents (image : PhMappedImage) : ImageReader ProdIdExtents := do
  let view := image.view
  let magic ← header view.base 2
  Checked.require (magic = imageDosSignature) statusInvalidImageNotMz
  let ntHeadersOffset ← header (view.base + 60) 4
  Checked.require (¬ (ntHeadersOffset = 0 ∨ ntHeadersOffset ≥ 2 ^ 31 - 1)) statusInvalidImageFormat
  let ntHeaders := ptrAddOffset view.base ntHeadersOffset
  let signature ← header ntHeaders 4
  Checked.require (signature = imageNtSignature) statusFailCheck
  let words := downFrom ntHeaders (view.base + sizeofImageDosHeader)
  let checksum ← Checked.ofMem fun m =>
    found (words.find? fun i => decide (field m i 4 = prodIdTagStart))
  phMappedImageProbe view checksum sizeofProdItem
  let richHeaderKey ← record (checksum + 4) 4
  let richStartSignature ← record checksum 4
  Checked.require (richHeaderKey ≠ 0 ∧ richStartSignature ≠ 0) statusFailCheck
  let start ← Checked.ofMem fun m =>
    found (words.find? fun i => decide (field m i 4 ^^^ richHeaderKey = prodIdTagEnd))
  phMappedImageProbe view start sizeofProdItem
  let stop := ptrAddOffset checksum sizeofProdItem
  phMappedImageProbe view stop sizeofProdItem
  let dwProdid ← record start 4
  Checked.require (richStartSignature = prodIdTagStart ∧
    dwProdid ^^^ richHeaderKey = prodIdTagEnd) statusFailCheck
  phMappedImageProbe view start ((checksum + (2 ^ 64 - start)) % 2 ^ 32)
  pure ⟨start, stop, richHeaderKey⟩
where
  found : Option Nat → Except NtStatus Nat
    | none => .error statusFailCheck
    | some i => .ok i

/-- The loop that counts, from the beginning of the identifiers to their end. -/
def prodIdCount (extents : ProdIdExtents) : Nat :=
  (extents.stop - extents.start + (sizeofProdItem - 1)) / sizeofProdItem

def prodIdItem (extents : ProdIdExtents) (i : Nat) : Nat :=
  ptrAddOffset extents.start (i * sizeofProdItem)

/-- The loop that copies, with the number of items that are left. -/
def prodIdEntries (m : Mem) (view : ImageView) (extents : ProdIdExtents) :
    Nat → Nat → List PhMappedImageProdIdEntry
  | 0, _ => []
  | left + 1, i =>
      let item := prodIdItem extents i
      let rest := prodIdEntries m view extents left (i + 1)
      if view.Probes item sizeofProdItem then
        let dwProdid := field m item 4 ^^^ extents.key
        let dwCount := field m (item + 4) 4 ^^^ extents.key
        if dwCount ≠ extents.key then
          ⟨dwProdid / 2 ^ 16 % 2 ^ 16, dwProdid % 2 ^ 16, dwCount⟩ :: rest
        else rest
      else rest

def phGetMappedImageProdIdHeader (image : PhMappedImage) :
    ImageReader (Reported PhMappedImageProdIdEntry) := do
  let extents ← prodIdExtents image
  let currentCount := prodIdCount extents % 2 ^ 32
  let entries ← Checked.ofMem fun m => .ok (prodIdEntries m image.view extents currentCount 0)
  pure ⟨currentCount, entries⟩

/-! ## TLS callbacks -/

def imageDirectoryEntryTls : Nat := 9

/-- `sizeof(IMAGE_TLS_DIRECTORY32)` or `sizeof(IMAGE_TLS_DIRECTORY64)`, the size of a pointer, and
where `AddressOfCallBacks` is. -/
structure TlsLayout where
  size : Nat
  pointer : Nat
  addressOfCallBacks : Nat

def tlsLayout (image : PhMappedImage) : TlsLayout :=
  if image.magic = imageNtOptionalHdr32Magic then ⟨24, 4, 12⟩ else ⟨40, 8, 24⟩

/-- `PhGetMappedImageTlsCallbackDirectory32` and `PhGetMappedImageTlsCallbackDirectory64`: the
address of the callbacks. -/
def tlsCallbackDirectory (image : PhMappedImage) : ImageReader Nat := do
  let layout := tlsLayout image
  let dataDirectory ← phGetMappedImageDataDirectory image imageDirectoryEntryTls
  let virtualAddress ← header dataDirectory 4
  let directory ← phMappedImageRvaToVa image virtualAddress
  Checked.require (directory ≠ 0) statusInvalidParameter
  phMappedImageProbe image.view directory layout.size
  let startAddressOfRawData ← record directory layout.pointer
  let base ← imageBase image
  let tlsCallbacksOffset := if startAddressOfRawData > base then base else 0
  let addressOfCallBacks ← record (directory + layout.addressOfCallBacks) layout.pointer
  let address ← phMappedImageRvaToVa image
    ((addressOfCallBacks + (2 ^ 64 - tlsCallbacksOffset)) % 2 ^ 32)
  Checked.require (address ≠ 0) statusInvalidParameter
  pure address

structure PhImageTlsCallbackEntry where
  index : Nat
  address : Nat

/-- The loop that counts the callbacks before the first null pointer; its index is a `ULONG`, as
the counter is. -/
def countTlsCallbacks (m : Mem) (array pointer : Nat) : Nat → Nat → Nat → Option Nat
  | 0, _, _ => none
  | rounds + 1, i, count =>
      if field m (ptrAddOffset array (i * pointer)) pointer = 0 then some count
      else countTlsCallbacks m array pointer rounds ((i + 1) % 2 ^ 32) ((count + 1) % 2 ^ 32)

/-- The loop that copies, with the number of callbacks that are left. -/
def tlsCallbackEntries (m : Mem) (array pointer : Nat) :
    Nat → Nat → List PhImageTlsCallbackEntry
  | 0, _ => []
  | left + 1, i =>
      ⟨0, field m (ptrAddOffset array (i * pointer)) pointer⟩ ::
        tlsCallbackEntries m array pointer left (i + 1)

/-- `PhGetMappedImageTlsCallbacks`, in so many rounds of its first loop. -/
def phGetMappedImageTlsCallbacks (image : PhMappedImage) (rounds : Nat) :
    ImageReader (Option (Reported PhImageTlsCallbackEntry)) := do
  let array ← tlsCallbackDirectory image
  let pointer := (tlsLayout image).pointer
  Checked.ofMem fun m =>
    match countTlsCallbacks m array pointer rounds 0 0 with
    | none => .ok none
    | some count =>
        if count = 0 then .error statusInvalidImageFormat
        else .ok (some ⟨count, tlsCallbackEntries m array pointer count 0⟩)

/-! ## Resources -/

def imageDirectoryEntryResource : Nat := 2

def sizeofImageResourceDirectory : Nat := 16

structure PhImageResourceEntry where
  type : Nat
  name : Nat
  language : Nat
  offset : Nat
  size : Nat
  codePage : Nat

/-- The entries of an `IMAGE_RESOURCE_DIRECTORY`. -/
def resourceDirectoryEntries (m : Mem) (directory : Nat) : List Nat :=
  (List.range (field m (directory + 12) 2 + field m (directory + 14) 2)).map fun i =>
    ptrAddOffset directory (sizeofImageResourceDirectory + 8 * i)

/-- `OffsetToData` of an `IMAGE_RESOURCE_DIRECTORY_ENTRY`; its highest bit is `DataIsDirectory`, and
the others are `OffsetToDirectory`. -/
def offsetToData (m : Mem) (entry : Nat) : Nat := field m (entry + 4) 4

def dataIsDirectory (m : Mem) (entry : Nat) : Bool := (offsetToData m entry).testBit 31

def subdirectory (m : Mem) (root entry : Nat) : Nat :=
  ptrAddOffset root (offsetToData m entry % 2 ^ 31)

def nameFromResourceEntry (m : Mem) (root entry : Nat) : Nat :=
  let name := field m entry 4
  if name.testBit 31 then ptrAddOffset root (name % 2 ^ 31) else name % 2 ^ 16

/-- A `ULONG` counter over the entries of a directory. -/
def countEntries (count : Nat → Nat) : List Nat → Nat
  | [] => 0
  | entry :: entries => (count entry + countEntries count entries) % 2 ^ 32

/-- The scan that counts the resources, by type, name and language. -/
def resourceCount (m : Mem) (root : Nat) : Nat :=
  countEntries (fun type =>
    if dataIsDirectory m type = false then 0
    else countEntries (fun name =>
      if dataIsDirectory m name = false then 0
      else countEntries (fun language => if dataIsDirectory m language then 0 else 1)
        (resourceDirectoryEntries m (subdirectory m root name)))
      (resourceDirectoryEntries m (subdirectory m root type)))
    (resourceDirectoryEntries m root)

def resourceEntry (m : Mem) (root type name language : Nat) : PhImageResourceEntry :=
  let data := ptrAddOffset root (offsetToData m language)
  ⟨nameFromResourceEntry m root type, nameFromResourceEntry m root name,
    nameFromResourceEntry m root language, field m data 4, field m (data + 4) 4,
    field m (data + 8) 4⟩

def resourceEntries (m : Mem) (root : Nat) : List PhImageResourceEntry :=
  (resourceDirectoryEntries m root).flatMap fun type =>
    if dataIsDirectory m type = false then []
    else (resourceDirectoryEntries m (subdirectory m root type)).flatMap fun name =>
      if dataIsDirectory m name = false then []
      else (resourceDirectoryEntries m (subdirectory m root name)).flatMap fun language =>
        if dataIsDirectory m language then [] else [resourceEntry m root type name language]

def resourceDirectory (image : PhMappedImage) : ImageReader Nat := do
  let dataDirectory ← phGetMappedImageDataDirectory image imageDirectoryEntryResource
  let virtualAddress ← header dataDirectory 4
  let directory ← phMappedImageRvaToVa image virtualAddress
  Checked.require (directory ≠ 0) statusInvalidParameter
  phMappedImageProbe image.view directory sizeofImageResourceDirectory
  pure directory

def phGetMappedImageResources (image : PhMappedImage) :
    ImageReader (Reported PhImageResourceEntry) := do
  let root ← resourceDirectory image
  Checked.ofMem fun m =>
    if resourceCount m root = 0 then .error statusInvalidImageFormat
    else .ok ⟨(resourceEntries m root).length % 2 ^ 32, resourceEntries m root⟩

end SystemInformer.PhLib
