import SystemInformer.PhLib.MappedImage

/-!
# Images that are accepted

What `PhInitializeMappedImage` has checked when it succeeds: the NT headers, as long as the file
header says that they are, lie in the view together with the table of sections, and the magic is
one of the two. The magic itself is read without a probe.
-/

namespace SystemInformer.PhLib

open Bytes

/-- An image that `PhInitializeMappedImage` has filled in for a view of the memory. -/
structure AcceptedImage (m : Mem) extends PhMappedImage where
  accepted : (phInitializeMappedImage view).val m = .ok toPhMappedImage

structure HeadersChecked (m : Mem) (image : PhMappedImage) : Prop where
  held : image.view.Holds image.ntHeaders (offsetOptionalHeader +
    field m (image.ntHeaders + 20) 2 + field m (image.ntHeaders + 6) 2 * sizeofImageSectionHeader)
  magic : image.magic = field m (image.ntHeaders + offsetOptionalHeader) 2
  magic_cases : image.magic = imageNtOptionalHdr32Magic ∨ image.magic = imageNtOptionalHdr64Magic
  numberOfSections : image.numberOfSections = field m (image.ntHeaders + 6) 2
  sections : image.sections =
    image.ntHeaders + offsetOptionalHeader + field m (image.ntHeaders + 20) 2

variable {view : ImageView} {image : PhMappedImage} {m : Mem}

theorem headers_of_ok (h : (phInitializeMappedImage view).val m = .ok image) :
    image.view = view ∧ HeadersChecked m image ∧ field m view.base 2 = imageDosSignature ∧
      image.ntHeaders < view.base + rtlImageMaxDosHeader := by
  have hfits := view.fits
  rw [phInitializeMappedImage] at h
  obtain ⟨-, h⟩ := Checked.val_require_bind_ok_iff.mp h
  obtain ⟨-, h⟩ := Checked.val_require_bind_ok_iff.mp h
  rw [val_header_bind] at h
  obtain ⟨hdos, h⟩ := Checked.val_require_bind_ok_iff.mp h
  rw [val_header_bind] at h
  obtain ⟨hoffset, h⟩ := Checked.val_require_bind_ok_iff.mp h
  have hnear : ptrAddOffset view.base (longToULongPtr (field m (view.base + 60) 4)) <
      view.base + rtlImageMaxDosHeader := by
    rw [ptrAddOffset, Nat.mod_eq_of_lt (by omega)]
    omega
  generalize ptrAddOffset view.base (longToULongPtr (field m (view.base + 60) 4)) = nt at h hnear
  obtain ⟨-, h⟩ := Checked.val_require_bind_ok_iff.mp h
  rw [val_header_bind, val_header_bind] at h
  obtain ⟨hprobe, h⟩ := Checked.val_require_bind_ok_iff.mp h
  rw [val_header_bind] at h
  obtain ⟨-, h⟩ := Checked.val_require_bind_ok_iff.mp h
  rw [val_header_bind] at h
  obtain ⟨hmagic, h⟩ := Checked.val_require_bind_ok_iff.mp h
  obtain rfl := Except.ok.inj h
  have h₁ := Bytes.field_lt m (nt + 20) 2
  have h₂ := Bytes.field_lt m (nt + 6) 2
  have hheld := (ImageView.probes_iff (by simp only [offsetOptionalHeader]; omega)
    (by simp only [offsetOptionalHeader, sizeofImageSectionHeader]; omega)).mp hprobe
  refine ⟨rfl, ⟨hheld, rfl, ?_, rfl, rfl⟩, hdos, hnear⟩
  by_contra hne
  rw [not_or] at hne
  exact hmagic hne

theorem headersChecked_of_ok (h : (phInitializeMappedImage view).val m = .ok image) :
    image.view = view ∧ HeadersChecked m image :=
  ⟨(headers_of_ok h).1, (headers_of_ok h).2.1⟩

theorem AcceptedImage.checked (image : AcceptedImage m) :
    HeadersChecked m image.toPhMappedImage := (headersChecked_of_ok image.accepted).2

theorem AcceptedImage.dosSignature (image : AcceptedImage m) :
    field m image.view.base 2 = imageDosSignature := (headers_of_ok image.accepted).2.2.1

theorem AcceptedImage.ntHeaders_near (image : AcceptedImage m) :
    image.view.base ≤ image.ntHeaders ∧
      image.ntHeaders < image.view.base + rtlImageMaxDosHeader :=
  ⟨image.checked.held.1, (headers_of_ok image.accepted).2.2.2⟩

/-! ## Pointers always have a value -/

theorem exists_rvaToSectionLoop (rva left i : Nat) :
    ∃ section_, (rvaToSectionLoop image rva left i).val m = .ok section_ := by
  induction left generalizing i with
  | zero => exact ⟨none, rfl⟩
  | succ left ih =>
      rw [rvaToSectionLoop, val_header_bind]
      split
      · rw [val_header_bind]
        split
        · exact ⟨_, rfl⟩
        · exact ih (i + 1)
      · exact ih (i + 1)

theorem exists_sectionVa (rva : Nat) : ∃ a, (sectionVa image rva).val m = .ok a := by
  obtain ⟨section_, hsection⟩ := exists_rvaToSectionLoop rva image.numberOfSections 0
  rw [sectionVa, phMappedImageRvaToSection, Checked.val_bind_ok hsection]
  cases section_ with
  | none => exact ⟨0, rfl⟩
  | some s => exact ⟨_, rfl⟩

theorem exists_phMappedImageVaToVa (va : Nat) :
    ∃ a, (phMappedImageVaToVa image va).val m = .ok a := by
  rw [phMappedImageVaToVa]
  split
  · exact ⟨0, rfl⟩
  · rw [imageBase]
    split
    · exact exists_sectionVa _
    · exact exists_sectionVa _

theorem exists_phMappedImageRvaToVa (rva : Nat) :
    ∃ a, (phMappedImageRvaToVa image rva).val m = .ok a := by
  rw [phMappedImageRvaToVa]
  split
  · exact ⟨0, rfl⟩
  · exact exists_sectionVa rva

/-! ## Small images -/

/-- A memory that is zero but for some fields of the file at `0x10000`, each an offset, a length
and a value. -/
def fileMem (fields : List (Nat × Nat × Nat)) : Mem :=
  applyLog (fun _ => 0) (fields.map fun f => Store.field (0x10000 + f.1) f.2.1 f.2.2)

/-- The headers of an image with one directory, at the beginning of its only section. The section
has the RVA `0x1000` and begins behind the headers, at `312 + 40` or `328 + 40`. -/
def smallHeaders (magic directory size rawSize : Nat) : List (Nat × Nat × Nat) :=
  let optionalSize := if magic = imageNtOptionalHdr32Magic then 224 else 240
  let directories := if magic = imageNtOptionalHdr32Magic then 184 else 200
  [(0, 2, imageDosSignature), (60, 4, 64), (64, 4, imageNtSignature), (70, 2, 1),
    (84, 2, optionalSize), (88, 2, magic), (directories - 4, 4, 16),
    (directories + 8 * directory, 4, 0x1000), (directories + 8 * directory + 4, 4, size),
    (100 + optionalSize, 4, 0x1000), (104 + optionalSize, 4, rawSize),
    (108 + optionalSize, 4, 128 + optionalSize)]

def smallView (size : Nat) (h : size ≤ 0x10000) : ImageView := ⟨0x10000, size, by omega, by omega⟩

def smallImage (magic size : Nat) (h : size ≤ 0x10000) : PhMappedImage :=
  ⟨smallView size h, magic, 0x10040, 1,
    if magic = imageNtOptionalHdr32Magic then 0x10000 + 312 else 0x10000 + 328⟩

end SystemInformer.PhLib
