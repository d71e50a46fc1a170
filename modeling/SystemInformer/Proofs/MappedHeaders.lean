import SystemInformer.Base.Words
import SystemInformer.Proofs.MappedImage

/-!
# Where the headers of an image are read

`PhInitializeMappedImage` probes the NT headers up to the optional header, then as long as the file
header says that they are, with the table of sections. It never probes the fields of the optional
header that it and `PhGetMappedImageDataDirectory` read: the magic, the number of directories and
the directories stand where the C structure has them, whatever `SizeOfOptionalHeader` is, and a
file may end before.

So three things decide. When everything in front of the magic passes (`ReachesMagic`), the magic
has to be in the view. When the image is accepted, the directories that the optional header counts
have to be. The table of sections always is; there the end of a section is a `ULONG`, and the first
section with an RVA is found unless its end is beyond `2 ^ 32`, which is also why a later section
may be returned in its place.
-/

namespace SystemInformer.PhLib

open Bytes

variable {view : ImageView} {image : PhMappedImage} {m : Mem}

def ImageView.Shows (view : ImageView) (r : Access ReadKind) : Prop := view.Holds r.addr r.length

/-! ## Up to the magic -/

/-- Where `e_lfanew` points. -/
def ntHeadersOffsetOf (m : Mem) (view : ImageView) : Nat :=
  longToULongPtr (field m (view.base + 60) 4)

def ntHeadersOf (m : Mem) (view : ImageView) : Nat :=
  ptrAddOffset view.base (ntHeadersOffsetOf m view)

def probedLength (m : Mem) (ntHeaders : Nat) : Nat :=
  offsetOptionalHeader + field m (ntHeaders + 20) 2 +
    field m (ntHeaders + 6) 2 * sizeofImageSectionHeader

/-- The signatures are there, and the NT headers are as long as they say. -/
structure ReachesMagic (m : Mem) (view : ImageView) : Prop where
  large : sizeofImageDosHeader ≤ view.size
  dosSignature : field m view.base 2 = imageDosSignature
  near : ¬ (ntHeadersOffsetOf m view ≥ view.size ∨ ntHeadersOffsetOf m view ≥ rtlImageMaxDosHeader)
  held : view.Holds (ntHeadersOf m view) (probedLength m (ntHeadersOf m view))
  signature : field m (ntHeadersOf m view) 4 = imageNtSignature

def magicOf (m : Mem) (view : ImageView) : Nat :=
  field m (ntHeadersOf m view + offsetOptionalHeader) 2

def IsMagic (magic : Nat) : Prop :=
  magic = imageNtOptionalHdr32Magic ∨ magic = imageNtOptionalHdr64Magic

def imageOf (m : Mem) (view : ImageView) : PhMappedImage where
  view := view
  magic := magicOf m view
  ntHeaders := ntHeadersOf m view
  numberOfSections := field m (ntHeadersOf m view + 6) 2
  sections := ntHeadersOf m view + offsetOptionalHeader + field m (ntHeadersOf m view + 20) 2

theorem probes_probedLength_iff (ntHeaders : Nat) :
    view.Probes ntHeaders (probedLength m ntHeaders) ↔
      view.Holds ntHeaders (probedLength m ntHeaders) := by
  have h₁ := field_lt m (ntHeaders + 20) 2
  have h₂ := field_lt m (ntHeaders + 6) 2
  have hlt : 0 < probedLength m ntHeaders ∧ probedLength m ntHeaders < 2 ^ 64 := by
    simp only [probedLength, offsetOptionalHeader, sizeofImageSectionHeader]
    omega
  exact ImageView.probes_iff hlt.1 hlt.2

theorem probes_dosHeader (h : sizeofImageDosHeader ≤ view.size) :
    view.Probes view.base sizeofImageDosHeader :=
  (ImageView.probes_iff (by decide) (by decide)).mpr ⟨le_rfl, Nat.add_le_add_left h _⟩

theorem probes_fixed_of_held {ntHeaders : Nat}
    (h : view.Holds ntHeaders (probedLength m ntHeaders)) :
    view.Probes ntHeaders offsetOptionalHeader :=
  (ImageView.probes_iff (by decide) (by decide)).mpr
    ⟨h.1, le_trans (by simp only [probedLength]; omega) h.2⟩

theorem phInitializeMappedImage_ok_iff :
    (phInitializeMappedImage view).val m = .ok image ↔
      ReachesMagic m view ∧ IsMagic (magicOf m view) ∧ image = imageOf m view := by
  rw [phInitializeMappedImage]
  simp only [phMappedImageProbe, Checked.val_require_bind_ok_iff, val_header_bind]
  constructor
  · rintro ⟨hlarge, -, hdos, hnear, -, hheld, hsignature, hmagic, hok⟩
    refine ⟨⟨Nat.not_lt.mp hlarge, hdos, hnear, (probes_probedLength_iff _).mp hheld, hsignature⟩,
      ?_, (Except.ok.inj hok).symm⟩
    by_contra hno
    exact hmagic (not_or.mp hno)
  · rintro ⟨h, hmagic, rfl⟩
    exact ⟨Nat.not_lt.mpr h.large, probes_dosHeader h.large, h.dosSignature, h.near,
      probes_fixed_of_held h.held, (probes_probedLength_iff _).mpr h.held, h.signature,
      not_and_or.mpr (hmagic.imp not_not.mpr not_not.mpr), rfl⟩

theorem safe_phInitializeMappedImage_iff :
    (phInitializeMappedImage view).Safe view.Shows m ↔
      (ReachesMagic m view → view.Holds (ntHeadersOf m view + offsetOptionalHeader) 2) := by
  rw [phInitializeMappedImage]
  simp only [phMappedImageProbe, header, Checked.safe_require_bind_iff, Checked.safe_field_bind_iff]
  constructor
  · intro hsafe h
    obtain ⟨-, hsafe⟩ := hsafe (Nat.not_lt.mpr h.large) (probes_dosHeader h.large)
    obtain ⟨-, hsafe⟩ := hsafe h.dosSignature
    obtain ⟨-, -, hsafe⟩ := hsafe h.near (probes_fixed_of_held h.held)
    obtain ⟨-, hsafe⟩ := hsafe ((probes_probedLength_iff _).mpr h.held)
    exact (hsafe h.signature).1
  · intro h hlarge hdosHeader
    have hbase : ∀ offset n, offset + n ≤ sizeofImageDosHeader →
        view.Holds (view.base + offset) n := fun offset n hle =>
      ⟨Nat.le_add_right _ _, by omega⟩
    refine ⟨hbase 0 2 (by decide), fun hdos => ⟨hbase 60 4 (by decide), fun hnear hfixed => ?_⟩⟩
    have hfixed : view.Holds (ntHeadersOf m view) offsetOptionalHeader :=
      (ImageView.probes_iff (by decide) (by decide)).mp hfixed
    have hnt : ∀ offset n, offset + n ≤ offsetOptionalHeader →
        view.Holds (ntHeadersOf m view + offset) n := fun offset n hle =>
      ⟨le_trans hfixed.1 (Nat.le_add_right _ _), le_trans (by omega) hfixed.2⟩
    refine ⟨hnt 20 2 (by decide), hnt 6 2 (by decide), fun hheld => ?_⟩
    refine ⟨hnt 0 4 (by decide), fun hsignature => ⟨?_, fun _ => Checked.safe_pure _⟩⟩
    exact h ⟨Nat.not_lt.mp hlarge, hdos, hnear, (probes_probedLength_iff _).mp hheld, hsignature⟩

/-! ## The directories -/

/-- Where `DataDirectory` begins in the optional header; `NumberOfRvaAndSizes` stands before it. -/
def offsetDataDirectory (magic : Nat) : Nat := if magic = imageNtOptionalHdr32Magic then 96 else 112

def numberOfRvaAndSizes (m : Mem) (image : PhMappedImage) : Nat :=
  field m (image.ntHeaders + offsetOptionalHeader + (offsetDataDirectory image.magic - 4)) 4

/-- The NT headers up to the last directory that the optional header counts. -/
def countedLength (m : Mem) (image : PhMappedImage) : Nat :=
  offsetOptionalHeader + offsetDataDirectory image.magic +
    numberOfRvaAndSizes m image * sizeofImageDataDirectory

theorem phGetMappedImageDataDirectory_eq (h : IsMagic image.magic) (index : Nat) :
    phGetMappedImageDataDirectory image index =
      dataDirectoryEntry image (offsetDataDirectory image.magic - 4)
        (offsetDataDirectory image.magic) index := by
  rw [phGetMappedImageDataDirectory, offsetDataDirectory]
  rcases h with hmagic | hmagic
  · rw [hmagic, if_pos rfl, if_pos rfl]
  · rw [hmagic, if_neg (by decide), if_pos rfl, if_neg (by decide)]

theorem safe_directory_of_held (hmagic : IsMagic image.magic)
    (h : view.Holds image.ntHeaders (countedLength m image)) (index : Nat) :
    (phGetMappedImageDataDirectory image index).Safe view.Shows m := by
  have hoffset : 4 ≤ offsetDataDirectory image.magic := by
    rw [offsetDataDirectory]
    split <;> decide
  have hinside : ∀ a n, image.ntHeaders ≤ a → a + n ≤ image.ntHeaders + countedLength m image →
      view.Shows ⟨.header, a, n⟩ := fun a n hle hend => ⟨le_trans h.1 hle, le_trans hend h.2⟩
  rw [phGetMappedImageDataDirectory_eq hmagic, dataDirectoryEntry]
  simp only [header, Checked.safe_require_bind_iff, Checked.safe_field_bind_iff]
  simp only [countedLength, sizeofImageDataDirectory] at hinside ⊢
  refine ⟨hinside _ 4 (by omega) (by omega), fun hindex => ?_⟩
  have hlt : index < numberOfRvaAndSizes m image := Nat.not_le.mp hindex
  exact ⟨hinside _ 4 (by omega) (by omega), fun _ => ⟨hinside _ 4 (by omega) (by omega),
    fun _ => Checked.safe_pure _⟩⟩

/-! ## The sections -/

def sectionAt (image : PhMappedImage) (i : Nat) : Nat :=
  image.sections + i * sizeofImageSectionHeader

/-- `VirtualAddress` of a section. -/
def sectionStart (m : Mem) (image : PhMappedImage) (i : Nat) : Nat :=
  field m (sectionAt image i + 12) 4

/-- Where a section ends, without wrap-around. -/
def sectionEnd (m : Mem) (image : PhMappedImage) (i : Nat) : Nat :=
  sectionStart m image i + field m (sectionAt image i + 16) 4

def sectionContains (m : Mem) (image : PhMappedImage) (rva i : Nat) : Bool :=
  sectionStart m image i ≤ rva ∧ rva < sectionEnd m image i

def firstSection (m : Mem) (image : PhMappedImage) (rva : Nat) : Option Nat :=
  (List.range image.numberOfSections).find? (sectionContains m image rva)

def sectionMatches (m : Mem) (image : PhMappedImage) (rva i : Nat) : Bool :=
  sectionStart m image i ≤ rva ∧ rva < sectionEnd m image i % 2 ^ 32

theorem sectionMatches_iff {rva : Nat} (hrva : rva < 2 ^ 32) (i : Nat) :
    sectionMatches m image rva i = true ↔
      sectionContains m image rva i = true ∧ sectionEnd m image i < 2 ^ 32 := by
  have hsize := field_lt m (sectionAt image i + 16) 4
  rw [sectionMatches, sectionContains, decide_eq_true_eq, decide_eq_true_eq, sectionEnd]
  omega

theorem rvaToSectionLoop_eq (rva left i : Nat) :
    (rvaToSectionLoop image rva left i).val m =
      .ok (((List.range' i left).find? (sectionMatches m image rva)).map (sectionAt image)) := by
  induction left generalizing i with
  | zero => rfl
  | succ left ih =>
      rw [rvaToSectionLoop, val_header_bind, List.range'_succ]
      have hmatches : sectionMatches m image rva i = true ↔ rva ≥ sectionStart m image i ∧
          rva < sectionEnd m image i % 2 ^ 32 := decide_eq_true_iff
      have hstart : field m (image.sections + i * sizeofImageSectionHeader + 12) 4 =
          sectionStart m image i := rfl
      rw [hstart]
      split
      · next hle =>
          rw [val_header_bind]
          show (if rva < sectionEnd m image i % 2 ^ 32 then _ else _ : ImageReader _).val m = _
          split
          · next hlt =>
              rw [List.find?_cons_of_pos (hmatches.mpr ⟨hle, hlt⟩)]
              rfl
          · next hnlt => rw [List.find?_cons_of_neg fun h => hnlt (hmatches.mp h).2, ih]
      · next hnle => rw [List.find?_cons_of_neg fun h => hnle (hmatches.mp h).1, ih]

theorem find?_eq_find?_iff {α : Type} {p q : α → Bool} (hqp : ∀ a, q a = true → p a = true)
    (l : List α) : l.find? q = l.find? p ↔ ∀ a, l.find? p = some a → q a = true := by
  induction l with
  | nil => exact iff_of_true rfl fun _ h => nomatch h
  | cons a l ih =>
      by_cases hp : p a = true
      · rw [List.find?_cons_of_pos hp]
        by_cases hq : q a = true
        · rw [List.find?_cons_of_pos hq]
          exact iff_of_true rfl fun _ h => Option.some.inj h ▸ hq
        · refine iff_of_false (fun h => hq ?_) fun h => hq (h a rfl)
          exact List.find?_some h
      · rw [List.find?_cons_of_neg hp, List.find?_cons_of_neg fun hq => hp (hqp a hq), ih]

theorem phMappedImageRvaToSection_first_iff {rva : Nat} (hrva : rva < 2 ^ 32) :
    (phMappedImageRvaToSection image rva).val m =
        .ok ((firstSection m image rva).map (sectionAt image)) ↔
      ∀ i, firstSection m image rva = some i → sectionEnd m image i < 2 ^ 32 := by
  have hinjective : Function.Injective (Option.map (sectionAt image)) :=
    Option.map_injective fun i j h => by
      simp only [sectionAt, sizeofImageSectionHeader] at h
      omega
  rw [phMappedImageRvaToSection, rvaToSectionLoop_eq, ← List.range_eq_range', Except.ok.injEq,
    hinjective.eq_iff, firstSection,
    find?_eq_find?_iff fun i hi => ((sectionMatches_iff hrva i).mp hi).1]
  refine forall_congr' fun i => forall_congr' fun hfirst => ?_
  rw [sectionMatches_iff hrva, and_iff_right (List.find?_some hfirst)]

theorem safe_sections_of_held (rva : Nat)
    (h : view.Holds image.sections (image.numberOfSections * sizeofImageSectionHeader)) :
    (phMappedImageRvaToSection image rva).Safe view.Shows m := by
  have hloop : ∀ left i, left + i ≤ image.numberOfSections →
      (rvaToSectionLoop image rva left i).Safe view.Shows m := by
    intro left
    induction left with
    | zero => exact fun i _ => Checked.safe_pure none
    | succ left ih =>
        intro i hi
        have hinside : ∀ offset n, offset + n ≤ sizeofImageSectionHeader →
            view.Holds (sectionAt image i + offset) n := fun offset n hle => by
          simp only [ImageView.Holds, sectionAt, sizeofImageSectionHeader] at h hle ⊢
          omega
        rw [rvaToSectionLoop, header, Checked.safe_field_bind_iff]
        refine ⟨hinside 12 4 (by decide), Checked.Safe.ite (fun _ => ?_) fun _ => ih _ (by omega)⟩
        rw [header, Checked.safe_field_bind_iff]
        exact ⟨hinside 16 4 (by decide),
          Checked.Safe.ite (fun _ => Checked.safe_pure _) fun _ => ih _ (by omega)⟩
  exact hloop image.numberOfSections 0 le_rfl

/-! ## Views -/

structure ImageMeets (m : Mem) (image : PhMappedImage) (index rva : ULong) : Prop where
  directories : image.view.Holds image.ntHeaders (countedLength m image)
  table : image.view.Holds image.sections (image.numberOfSections * sizeofImageSectionHeader)
  directoryRead : (phGetMappedImageDataDirectory image index.toNat).Safe image.view.Shows m
  sectionsRead : (phMappedImageRvaToSection image rva.toNat).Safe image.view.Shows m
  section_ : (phMappedImageRvaToSection image rva.toNat).val m =
    .ok ((firstSection m image rva.toNat).map (sectionAt image))

structure HeadersMeet (m : Mem) (view : ImageView) (index rva : ULong) : Prop where
  headersRead : (phInitializeMappedImage view).Safe view.Shows m
  accepted : ∀ image, (phInitializeMappedImage view).val m = .ok image →
    ImageMeets m image index rva

/-- The fields that are read without a probe fit, and no section with the RVA is beyond what a
`ULONG` counts before another one has been found. -/
structure HeadersFit (m : Mem) (view : ImageView) (rva : ULong) : Prop where
  magic : ReachesMagic m view →
    ntHeadersOf m view + offsetOptionalHeader + 2 ≤ view.base + view.size
  directories : ReachesMagic m view → IsMagic (magicOf m view) →
    ntHeadersOf m view + countedLength m (imageOf m view) ≤ view.base + view.size
  sections : ReachesMagic m view → IsMagic (magicOf m view) →
    ∀ i, firstSection m (imageOf m view) rva.toNat = some i →
      sectionEnd m (imageOf m view) i < 2 ^ 32

theorem imageMeets_iff (h : ReachesMagic m view) (hmagic : IsMagic (magicOf m view))
    (index rva : ULong) :
    ImageMeets m (imageOf m view) index rva ↔
      ntHeadersOf m view + countedLength m (imageOf m view) ≤ view.base + view.size ∧
        ∀ i, firstSection m (imageOf m view) rva.toNat = some i →
          sectionEnd m (imageOf m view) i < 2 ^ 32 := by
  have htable : view.Holds (imageOf m view).sections
      ((imageOf m view).numberOfSections * sizeofImageSectionHeader) := by
    have hheld := h.held
    simp only [ImageView.Holds, probedLength] at hheld
    simp only [ImageView.Holds, imageOf]
    omega
  constructor
  · intro hmeets
    exact ⟨hmeets.directories.2, (phMappedImageRvaToSection_first_iff rva.isLt).mp hmeets.section_⟩
  · rintro ⟨hcounted, hsections⟩
    have hdirectories : view.Holds (ntHeadersOf m view) (countedLength m (imageOf m view)) :=
      ⟨h.held.1, hcounted⟩
    exact ⟨hdirectories, htable, safe_directory_of_held hmagic hdirectories _,
      safe_sections_of_held _ htable, (phMappedImageRvaToSection_first_iff rva.isLt).mpr hsections⟩

theorem mappedHeaders_meet_iff (m : Mem) (view : ImageView) (index rva : ULong) :
    HeadersMeet m view index rva ↔ HeadersFit m view rva := by
  constructor
  · intro h
    have himage : ∀ (hreaches : ReachesMagic m view) (hmagic : IsMagic (magicOf m view)), _ :=
      fun hreaches hmagic => (imageMeets_iff hreaches hmagic index rva).mp
        (h.accepted _ (phInitializeMappedImage_ok_iff.mpr ⟨hreaches, hmagic, rfl⟩))
    exact ⟨fun hreaches => (safe_phInitializeMappedImage_iff.mp h.headersRead hreaches).2,
      fun hreaches hmagic => (himage hreaches hmagic).1,
      fun hreaches hmagic => (himage hreaches hmagic).2⟩
  · intro h
    refine ⟨safe_phInitializeMappedImage_iff.mpr fun hreaches =>
      ⟨le_trans hreaches.held.1 (Nat.le_add_right _ _), h.magic hreaches⟩, fun image hok => ?_⟩
    obtain ⟨hreaches, hmagic, rfl⟩ := phInitializeMappedImage_ok_iff.mp hok
    exact (imageMeets_iff hreaches hmagic index rva).mpr
      ⟨h.directories hreaches hmagic, h.sections hreaches hmagic⟩

/-- A file that ends where the optional header would begin. -/
def bareHeaders : Mem :=
  fileMem [(0, 2, imageDosSignature), (60, 4, 64), (64, 4, imageNtSignature)]

/-- A file with one section of `0x2000` bytes from the RVA `0xfffff000` on. -/
def highSection : Mem :=
  fileMem [(0, 2, imageDosSignature), (60, 4, 64), (64, 4, imageNtSignature), (70, 2, 1),
    (84, 2, 112), (88, 2, imageNtOptionalHdr64Magic), (212, 4, 0xfffff000), (216, 4, 0x2000)]

def highSectionView : ImageView := smallView 240 (by omega)

theorem phInitializeMappedImage_readsBehind :
    ¬ HeadersMeet bareHeaders (smallView 88 (by omega)) 0 0 ∧
      (phMappedImageRvaToSection (imageOf highSection highSectionView) 0xfffff800).val highSection =
        .ok none ∧
      firstSection highSection (imageOf highSection highSectionView) 0xfffff800 = some 0 ∧
      ¬ HeadersMeet highSection highSectionView 0 0xfffff800 := by
  have hreaches : ReachesMagic bareHeaders (smallView 88 (by omega)) :=
    ⟨by decide, by decide, by decide, by decide, by decide⟩
  have hhigh : (phMappedImageRvaToSection (imageOf highSection highSectionView) 0xfffff800).val
      highSection = .ok none := by decide
  have hfirst : firstSection highSection (imageOf highSection highSectionView) 0xfffff800 =
      some 0 := by decide
  have haccepted : (phInitializeMappedImage highSectionView).val highSection =
      .ok (imageOf highSection highSectionView) := by decide
  refine ⟨fun h => ?_, hhigh, hfirst, fun h => ?_⟩
  · have hfit := ((mappedHeaders_meet_iff _ _ _ _).mp h).magic hreaches
    revert hfit
    decide
  · have hsection := (h.accepted _ haccepted).section_
    rw [show (0xfffff800 : ULong).toNat = 0xfffff800 from rfl, hhigh, hfirst] at hsection
    cases hsection

end SystemInformer.PhLib
