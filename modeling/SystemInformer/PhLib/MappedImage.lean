import SystemInformer.Base.Nt
import SystemInformer.Lib.Checked

/-!
# Mapped images: the headers, the sections and the directories (`mapimg.c`)

An image is a view of a file. Its parser holds raw pointers into the view; it probes a record
against the bounds of the view and then reads it, and a probe that fails raises
`STATUS_ACCESS_VIOLATION`, which the function returns. The probes of the source are written by
hand, so a field that is read need not be one that was probed: the model keeps the two apart, and
every read is recorded with its address and length.

Pointers are numbers below `2 ^ 64` and are moved modulo it, null being 0. Records are told from
what the headers consist of: the DOS, NT, file and optional headers with the data directories, and
the table of sections.
-/

namespace SystemInformer.PhLib

open Bytes

def statusNoMoreEntries : NtStatus := 0x8000001A
def statusInvalidViewSize : NtStatus := 0xC000001F
def statusInvalidImageNotMz : NtStatus := 0xC000012F

/-! ## Views -/

/-- Where a file is mapped. The first and the last 64 KB of the address space are not used. -/
structure ImageView where
  base : Nat
  size : Nat
  base_le : 0x10000 ≤ base
  fits : base + size + 0x10000 ≤ 2 ^ 64
  deriving DecidableEq

/-- The `n` bytes at `a` are bytes of the view. -/
def ImageView.Holds (view : ImageView) (a n : Nat) : Prop :=
  view.base ≤ a ∧ a + n ≤ view.base + view.size

instance (view : ImageView) (a n : Nat) : Decidable (view.Holds a n) :=
  inferInstanceAs (Decidable (_ ∧ _))

def ImageView.left (view : ImageView) (address : Nat) : Nat :=
  if view.base ≤ address then view.base + view.size - address else 0

/-- What a field belongs to. -/
inductive ReadKind where
  | header
  | record
  deriving DecidableEq, Repr

abbrev ImageReader := Checked ReadKind NtStatus

def header (a n : Nat) : ImageReader Nat := Checked.field .header a n

def record (a n : Nat) : ImageReader Nat := Checked.field .record a n

def ImageView.Allows (view : ImageView) (r : Access ReadKind) : Prop :=
  r.kind = .record → view.Holds r.addr r.length

def ptrAddOffset (pointer offset : Nat) : Nat := (pointer + offset) % 2 ^ 64

/-- What `PhProbeAddress` accepts with the bounds of the view. -/
def ImageView.Probes (view : ImageView) (address length : Nat) : Prop :=
  length = 0 ∨ ¬ (ptrAddOffset address length < address ∨ address < view.base ∨
    ptrAddOffset address length > ptrAddOffset view.base view.size)

instance (view : ImageView) (a n : Nat) : Decidable (view.Probes a n) :=
  inferInstanceAs (Decidable (_ ∨ _))

def phMappedImageProbe (view : ImageView) (address length : Nat) : ImageReader Unit :=
  Checked.require (view.Probes address length) statusAccessViolation

/-! ## Headers -/

def sizeofImageDosHeader : Nat := 64
def imageDosSignature : Nat := 0x5a4d
def imageNtSignature : Nat := 0x4550
def imageNtOptionalHdr32Magic : Nat := 0x10b
def imageNtOptionalHdr64Magic : Nat := 0x20b
def sizeofImageSectionHeader : Nat := 40

def rtlImageMaxDosHeader : Nat := 256 * 1024 * 1024

def offsetOptionalHeader : Nat := 24

structure PhMappedImage where
  view : ImageView
  magic : Nat
  ntHeaders : Nat
  numberOfSections : Nat
  sections : Nat
  deriving DecidableEq

/-- The conversion of a `LONG` to a `ULONG_PTR`. -/
def longToULongPtr (n : Nat) : Nat := if n < 2 ^ 31 then n else n + (2 ^ 64 - 2 ^ 32)

/-- `PhInitializeMappedImage`; a view does not start at null or at the last address. -/
def phInitializeMappedImage (view : ImageView) : ImageReader PhMappedImage := do
  Checked.require (¬ view.size < sizeofImageDosHeader) statusInvalidViewSize
  phMappedImageProbe view view.base sizeofImageDosHeader
  let magic ← header view.base 2
  Checked.require (magic = imageDosSignature) statusInvalidImageNotMz
  let lfanew ← header (view.base + 60) 4
  let ntHeadersOffset := longToULongPtr lfanew
  Checked.require (¬ (ntHeadersOffset ≥ view.size ∨ ntHeadersOffset ≥ rtlImageMaxDosHeader))
    statusInvalidImageFormat
  let ntHeaders := ptrAddOffset view.base ntHeadersOffset
  phMappedImageProbe view ntHeaders offsetOptionalHeader
  let sizeOfOptionalHeader ← header (ntHeaders + 20) 2
  let numberOfSections ← header (ntHeaders + 6) 2
  phMappedImageProbe view ntHeaders
    (offsetOptionalHeader + sizeOfOptionalHeader + numberOfSections * sizeofImageSectionHeader)
  let signature ← header ntHeaders 4
  Checked.require (signature = imageNtSignature) statusInvalidImageFormat
  let magic ← header (ntHeaders + offsetOptionalHeader) 2
  Checked.require (¬ (magic ≠ imageNtOptionalHdr32Magic ∧ magic ≠ imageNtOptionalHdr64Magic))
    statusInvalidImageFormat
  pure
    { view
      magic
      ntHeaders
      numberOfSections
      sections := ntHeaders + offsetOptionalHeader + sizeOfOptionalHeader }

/-! ## Sections -/

/-- The loop of `PhMappedImageRvaToSection`, with the number of sections that are left; the end of
a section is a `ULONG`. -/
def rvaToSectionLoop (image : PhMappedImage) (rva : Nat) : Nat → Nat → ImageReader (Option Nat)
  | 0, _ => pure none
  | left + 1, i => do
      let section_ := image.sections + i * sizeofImageSectionHeader
      let virtualAddress ← header (section_ + 12) 4
      if rva ≥ virtualAddress then do
        let sizeOfRawData ← header (section_ + 16) 4
        if rva < (virtualAddress + sizeOfRawData) % 2 ^ 32 then pure (some section_)
        else rvaToSectionLoop image rva left (i + 1)
      else rvaToSectionLoop image rva left (i + 1)

def phMappedImageRvaToSection (image : PhMappedImage) (rva : Nat) : ImageReader (Option Nat) :=
  rvaToSectionLoop image rva image.numberOfSections 0

/-- Where the data of an RVA are in the view; null if it is in no section. -/
def sectionVa (image : PhMappedImage) (rva : Nat) : ImageReader Nat := do
  match ← phMappedImageRvaToSection image rva with
  | none => pure 0
  | some section_ => do
      let virtualAddress ← header (section_ + 12) 4
      let pointerToRawData ← header (section_ + 20) 4
      pure (ptrAddOffset image.view.base (rva - virtualAddress + pointerToRawData))

def phMappedImageRvaToVa (image : PhMappedImage) (rva : Nat) : ImageReader Nat :=
  if rva = 0 then pure 0 else sectionVa image rva

/-- `OptionalHeader.ImageBase`. -/
def imageBase (image : PhMappedImage) : ImageReader Nat :=
  if image.magic = imageNtOptionalHdr32Magic then
    header (image.ntHeaders + offsetOptionalHeader + 28) 4
  else header (image.ntHeaders + offsetOptionalHeader + 24) 8

def phMappedImageVaToVa (image : PhMappedImage) (va : Nat) : ImageReader Nat :=
  if image.magic ≠ imageNtOptionalHdr32Magic ∧ image.magic ≠ imageNtOptionalHdr64Magic then pure 0
  else do
    let base ← imageBase image
    sectionVa image ((va + (2 ^ 64 - base)) % 2 ^ 32)

/-! ## Directories -/

def imageDirectoryEntryExport : Nat := 0
def imageDirectoryEntryImport : Nat := 1
def imageDirectoryEntryDelayImport : Nat := 13

def sizeofImageDataDirectory : Nat := 8

/-- The entry of an optional header that has `NumberOfRvaAndSizes` and `DataDirectory` at the given
offsets. -/
def dataDirectoryEntry (image : PhMappedImage) (numberOfRvaAndSizes dataDirectory index : Nat) :
    ImageReader Nat := do
  let optionalHeader := image.ntHeaders + offsetOptionalHeader
  let number ← header (optionalHeader + numberOfRvaAndSizes) 4
  Checked.require (¬ index ≥ number) statusInvalidParameter2
  let entry := optionalHeader + dataDirectory + index * sizeofImageDataDirectory
  let virtualAddress ← header entry 4
  Checked.require (virtualAddress ≠ 0) statusNotFound
  let size ← header (entry + 4) 4
  Checked.require (size ≠ 0) statusNotFound
  pure entry

def phGetMappedImageDataDirectory (image : PhMappedImage) (index : Nat) : ImageReader Nat :=
  if image.magic = imageNtOptionalHdr32Magic then dataDirectoryEntry image 92 96 index
  else if image.magic = imageNtOptionalHdr64Magic then dataDirectoryEntry image 108 112 index
  else Checked.fail statusNotFound

/-! ## What the headers say is read as a header -/

section

variable {view : ImageView} {image : PhMappedImage} {m : Mem} {α : Type}

@[simp] theorem val_header (a n : Nat) (m : Mem) : (header a n).val m = .ok (field m a n) := rfl

@[simp] theorem val_record (a n : Nat) (m : Mem) : (record a n).val m = .ok (field m a n) := rfl

@[simp] theorem val_header_bind (a n : Nat) (f : Nat → ImageReader α) (m : Mem) :
    (header a n >>= f).val m = (f (field m a n)).val m := rfl

@[simp] theorem val_record_bind (a n : Nat) (f : Nat → ImageReader α) (m : Mem) :
    (record a n >>= f).val m = (f (field m a n)).val m := rfl

@[simp] theorem safe_header (a n : Nat) : (header a n).Safe view.Allows m :=
  Checked.safe_field_iff.mpr fun h => nomatch h

@[simp] theorem safe_header_bind_iff {a n : Nat} {f : Nat → ImageReader α} :
    (header a n >>= f).Safe view.Allows m ↔ (f (field m a n)).Safe view.Allows m := by
  rw [Checked.safe_bind_iff, val_header]
  simp

@[simp] theorem safe_record_iff {a n : Nat} :
    (record a n).Safe view.Allows m ↔ view.Holds a n := by
  rw [record, Checked.safe_field_iff, ImageView.Allows]
  simp

@[simp] theorem safe_record_bind_iff {a n : Nat} {f : Nat → ImageReader α} :
    (record a n >>= f).Safe view.Allows m ↔
      view.Holds a n ∧ (f (field m a n)).Safe view.Allows m := by
  rw [Checked.safe_bind_iff, safe_record_iff, val_record]
  simp

theorem safe_rvaToSectionLoop (rva left i : Nat) :
    (rvaToSectionLoop image rva left i).Safe view.Allows m := by
  induction left generalizing i with
  | zero => exact Checked.safe_pure none
  | succ left ih =>
      rw [rvaToSectionLoop, safe_header_bind_iff]
      refine Checked.Safe.ite (fun _ => ?_) fun _ => ih (i + 1)
      rw [safe_header_bind_iff]
      exact Checked.Safe.ite (fun _ => Checked.safe_pure _) fun _ => ih (i + 1)

theorem safe_sectionVa (rva : Nat) : (sectionVa image rva).Safe view.Allows m := by
  rw [sectionVa]
  refine (safe_rvaToSectionLoop rva _ 0).bind fun section_ _ => ?_
  cases section_ with
  | none => exact Checked.safe_pure 0
  | some s => simp

@[simp] theorem safe_phMappedImageRvaToVa (rva : Nat) :
    (phMappedImageRvaToVa image rva).Safe view.Allows m :=
  Checked.Safe.ite (fun _ => Checked.safe_pure 0) fun _ => safe_sectionVa rva

@[simp] theorem safe_phMappedImageVaToVa (va : Nat) :
    (phMappedImageVaToVa image va).Safe view.Allows m := by
  refine Checked.Safe.ite (fun _ => Checked.safe_pure 0) fun _ => ?_
  refine Checked.Safe.bind ?_ fun base _ => safe_sectionVa _
  exact Checked.Safe.ite (fun _ => safe_header _ _) fun _ => safe_header _ _

@[simp] theorem safe_phGetMappedImageDataDirectory (index : Nat) :
    (phGetMappedImageDataDirectory image index).Safe view.Allows m := by
  rw [phGetMappedImageDataDirectory]
  refine Checked.Safe.ite (fun _ => ?_) fun _ =>
    Checked.Safe.ite (fun _ => ?_) fun _ => Checked.safe_fail _
  · simp [dataDirectoryEntry]
  · simp [dataDirectoryEntry]

/-! ## Probes -/

theorem ImageView.probes_iff {address length : Nat} (hlength : 0 < length)
    (hlt : length < 2 ^ 64) : view.Probes address length ↔ view.Holds address length := by
  have hfits := view.fits
  rw [ImageView.Probes, ImageView.Holds, ptrAddOffset, ptrAddOffset,
    Nat.mod_eq_of_lt (show view.base + view.size < 2 ^ 64 by omega)]
  rcases Nat.lt_or_ge (address + length) (2 ^ 64) with h | h
  · rw [Nat.mod_eq_of_lt h]
    omega
  · omega

@[simp] theorem safe_phMappedImageProbe (address length : Nat) :
    (phMappedImageProbe view address length).Safe view.Allows m := Checked.safe_require _

theorem val_phMappedImageProbe {address length : Nat} (hlength : 0 < length)
    (hlt : length < 2 ^ 64) (m : Mem) :
    (phMappedImageProbe view address length).val m =
      if view.Holds address length then .ok () else .error statusAccessViolation := by
  rw [phMappedImageProbe, Checked.val_require]
  exact if_congr (ImageView.probes_iff hlength hlt) rfl rfl

/-! ## Pointers are words -/

theorem ptrAddOffset_lt (pointer offset : Nat) : ptrAddOffset pointer offset < 2 ^ 64 :=
  Nat.mod_lt _ (by omega)

theorem sectionVa_lt {rva a : Nat} (h : (sectionVa image rva).val m = .ok a) : a < 2 ^ 64 := by
  obtain ⟨section_, -, h⟩ := Checked.val_bind_ok_iff.mp h
  cases section_ with
  | none =>
      obtain rfl : 0 = a := Except.ok.inj h
      omega
  | some s =>
      obtain rfl := Except.ok.inj h
      exact ptrAddOffset_lt _ _

theorem phMappedImageRvaToVa_lt {rva a : Nat}
    (h : (phMappedImageRvaToVa image rva).val m = .ok a) : a < 2 ^ 64 := by
  rw [phMappedImageRvaToVa] at h
  split at h
  · obtain rfl : 0 = a := Except.ok.inj h
    omega
  · exact sectionVa_lt h

theorem phMappedImageVaToVa_lt {va a : Nat}
    (h : (phMappedImageVaToVa image va).val m = .ok a) : a < 2 ^ 64 := by
  rw [phMappedImageVaToVa] at h
  split at h
  · obtain rfl : 0 = a := Except.ok.inj h
    omega
  · obtain ⟨base, -, h⟩ := Checked.val_bind_ok_iff.mp h
    exact sectionVa_lt h

end

end SystemInformer.PhLib
