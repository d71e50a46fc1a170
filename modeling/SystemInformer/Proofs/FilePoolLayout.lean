import SystemInformer.PhLib.FilePool

/-!
# Where the fields of a file pool are

With segments of at least 256 kB the block spans of the two headers, which the
source computes from the sizes of the header structures alone, leave room for the
block header in front of them as well. Then no two fields share a file offset, and
a store to one field is seen by no read of another: `get_set` and its companions
for the bitmaps are all that later proofs use of the layout.
-/

namespace SystemInformer.PhLib

open Bitmap

/-! ## Sizes -/

/-- The shifts for which the headers fit their block spans. -/
def Roomy (s : Nat) : Prop := 18 ≤ s ∧ s ≤ 28

/-- What the spans and sizes of a roomy layout come to. -/
structure Sizes (s : Nat) : Prop where
  block : 128 ≤ blockSize s
  segment : segmentSize s = 2048 * blockSize s
  fileSpan : fileHeaderBlockSpan s = 1
  spanPos : 1 ≤ segmentHeaderBlockSpan s
  spanLe : segmentHeaderBlockSpan s ≤ 3
  room : 336 ≤ segmentHeaderBlockSpan s * blockSize s
  freeBlocks : 16 ≤ 272 % blockSize s
  freeFlink : 16 ≤ 276 % blockSize s
  freeBlink : 16 ≤ 280 % blockSize s

theorem Roomy.sizes {s : Nat} (h : Roomy s) : Sizes s := by
  obtain ⟨h₁, h₂⟩ := h
  constructor <;> interval_cases s <;> decide

/-- The first block of segment `i` that can be allocated. -/
def firstFree (s i : Nat) : Nat := headerBlock s i + segmentHeaderBlockSpan s

/-- The segment lies below 4 GiB, so that its offset does not wrap. -/
def InFile (s i : Nat) : Prop := (i + 1) * segmentSize s ≤ ulongRange

theorem segmentOffset_eq {s i : Nat} (hs : Sizes s) (h : InFile s i) :
    segmentOffset s i = i * segmentSize s := by
  have hpos := hs.block
  have hseg := hs.segment
  unfold InFile at h
  rw [Nat.succ_mul] at h
  exact Nat.mod_eq_of_lt (by omega)

theorem InFile.mono {s i j : Nat} (h : InFile s j) (hij : i ≤ j) : InFile s i :=
  Nat.le_trans (Nat.mul_le_mul_right _ (by omega)) h

/-! ## Fields -/

/-- A block header that is not inside a segment header: the first block, the one of
the segment header, or an allocatable one. -/
def BlockOffset (s i offset : Nat) : Prop :=
  ∃ b, offset = b * blockSize s ∧ b < fpBlockCount ∧
    (b = 0 ∨ b = headerBlock s i ∨ firstFree s i ≤ b)

/-- The fields there are in a file of whole segments. -/
def FpField.Ok (s : Nat) : FpField → Prop
  | .magic | .segmentShift | .segmentCount => True
  | .freeList k => k < fpFreeListCount
  | .freeBlocks i | .freeFlink i | .freeBlink i => InFile s i
  | .blockFlags i offset | .blockSpan i offset => InFile s i ∧ BlockOffset s i offset

def FpField.segment : FpField → Nat
  | .magic | .segmentShift | .segmentCount | .freeList _ => 0
  | .freeBlocks i | .freeFlink i | .freeBlink i | .blockFlags i _ | .blockSpan i _ => i

def FpField.offset (s : Nat) : FpField → Nat
  | .magic => 16
  | .segmentShift => 20
  | .segmentCount => 24
  | .freeList k => 40 + 4 * k
  | .freeBlocks i => headerBlock s i * blockSize s + 272
  | .freeFlink i => headerBlock s i * blockSize s + 276
  | .freeBlink i => headerBlock s i * blockSize s + 280
  | .blockFlags _ offset => offset
  | .blockSpan _ offset => offset + 4

theorem headerBlock_le {s i : Nat} (hs : Sizes s) : headerBlock s i ≤ 1 := by
  unfold headerBlock
  split
  · rw [hs.fileSpan]
  · omega

/-- The segment header ends before the first allocatable block, and that is in
the segment. -/
theorem header_room {s i : Nat} (hs : Sizes s) :
    headerBlock s i * blockSize s + 336 ≤ firstFree s i * blockSize s ∧ firstFree s i ≤ 4 := by
  have hle := headerBlock_le (i := i) hs
  have hspan := hs.spanLe
  have hroom := hs.room
  unfold firstFree
  rw [Nat.add_mul]
  omega

theorem BlockOffset.cases {s i offset : Nat} (hs : Sizes s) (h : BlockOffset s i offset) :
    (offset = 0 ∨ offset = headerBlock s i * blockSize s ∨
      headerBlock s i * blockSize s + 336 ≤ offset) ∧
    offset + blockSize s ≤ segmentSize s ∧ offset % blockSize s = 0 := by
  obtain ⟨b, rfl, hb, hcases⟩ := h
  refine ⟨?_, ?_, Nat.mul_mod_left b _⟩
  · rcases hcases with rfl | rfl | hfree
    · exact Or.inl (Nat.zero_mul _)
    · exact Or.inr (Or.inl rfl)
    · exact Or.inr (Or.inr (Nat.le_trans (header_room hs).1 (Nat.mul_le_mul_right _ hfree)))
  · rw [hs.segment, ← Nat.succ_mul]
    exact Nat.mul_le_mul_right _ hb

theorem FpField.offset_lt {s : Nat} {f : FpField} (hs : Sizes s) (hf : f.Ok s) :
    f.offset s + 4 ≤ segmentSize s := by
  have hblock := hs.block
  have hseg := hs.segment
  have hheader : ∀ i, headerBlock s i * blockSize s ≤ blockSize s := fun i => by
    simpa using Nat.mul_le_mul_right (blockSize s) (headerBlock_le (i := i) hs)
  cases f with
  | magic | segmentShift | segmentCount => simp only [FpField.offset]; omega
  | freeList k =>
      have : k < 8 := hf
      simp only [FpField.offset]
      omega
  | freeBlocks i | freeFlink i | freeBlink i =>
      have := hheader i
      simp only [FpField.offset]
      omega
  | blockFlags i offset | blockSpan i offset =>
      have := (hf.2.cases hs).2.1
      simp only [FpField.offset]
      omega

theorem FpField.inFile {s : Nat} {f : FpField} (hs : Roomy s) (hf : f.Ok s) :
    InFile s f.segment := by
  have h0 : InFile s 0 := by
    obtain ⟨h₁, h₂⟩ := hs
    unfold InFile segmentSize ulongRange
    rw [Nat.zero_add, Nat.one_mul]
    exact Nat.pow_le_pow_right (by decide) (by omega)
  cases f with
  | magic | segmentShift | segmentCount | freeList k => exact h0
  | freeBlocks i | freeFlink i | freeBlink i => exact hf
  | blockFlags i offset | blockSpan i offset => exact hf.1

theorem FpField.addr_eq {s : Nat} {f : FpField} (hs : Roomy s) (hf : f.Ok s) :
    f.addr s = f.segment * segmentSize s + f.offset s := by
  have hoff := segmentOffset_eq hs.sizes (FpField.inFile hs hf)
  cases f with
  | magic | segmentShift | segmentCount =>
      simp only [FpField.addr, FpField.segment, FpField.offset, fpBlockBody]
      omega
  | freeList k =>
      simp only [FpField.addr, FpField.segment, FpField.offset, fpBlockBody]
      omega
  | freeBlocks i | freeFlink i | freeBlink i =>
      simp only [FpField.segment] at hoff
      simp only [FpField.addr, phFppGetHeaderSegment, FpField.segment, FpField.offset,
        fpBlockBody, hoff]
      omega
  | blockFlags i offset =>
      simp only [FpField.segment] at hoff
      simp only [FpField.addr, FpField.segment, FpField.offset, hoff]
  | blockSpan i offset =>
      simp only [FpField.segment] at hoff
      simp only [FpField.addr, FpField.segment, FpField.offset, hoff, Nat.add_assoc]

theorem segment_offset_inj {size i j x y : Nat} (hx : x < size) (hy : y < size)
    (h : i * size + x = j * size + y) : i = j ∧ x = y := by
  have hpos : 0 < size := by omega
  have hi : (i * size + x) / size = i := by
    rw [Nat.mul_comm, Nat.mul_add_div hpos, Nat.div_eq_of_lt hx, Nat.add_zero]
  have hj : (j * size + y) / size = j := by
    rw [Nat.mul_comm, Nat.mul_add_div hpos, Nat.div_eq_of_lt hy, Nat.add_zero]
  rw [h, hj] at hi
  subst hi
  exact ⟨rfl, by omega⟩

/-- The field of segment `i` at an offset: the two fields of a block header are told
by the remainder, the others by the offset itself. -/
def fieldAt (s i offset : Nat) : FpField :=
  if offset % blockSize s = 0 then .blockFlags i offset
  else if offset % blockSize s = 4 then .blockSpan i (offset - 4)
  else if offset = headerBlock s i * blockSize s + 272 then .freeBlocks i
  else if offset = headerBlock s i * blockSize s + 276 then .freeFlink i
  else if offset = headerBlock s i * blockSize s + 280 then .freeBlink i
  else if offset = 16 then .magic
  else if offset = 20 then .segmentShift
  else if offset = 24 then .segmentCount
  else .freeList ((offset - 40) / 4)

theorem fieldAt_offset {s : Nat} {f : FpField} (hs : Sizes s) (hf : f.Ok s) :
    fieldAt s f.segment (f.offset s) = f := by
  have hblock := hs.block
  have h0 : headerBlock s 0 * blockSize s = blockSize s := by
    rw [headerBlock, if_pos rfl, hs.fileSpan, Nat.one_mul]
  -- A small offset, and one into a segment header, is in no block header.
  have hsmall : ∀ {x}, 16 ≤ x → x < 128 → x % blockSize s ≠ 0 ∧ x % blockSize s ≠ 4 := by
    intro x h₁ h₂
    rw [Nat.mod_eq_of_lt (by omega)]
    omega
  have hheader : ∀ i {c}, 16 ≤ c % blockSize s →
      (headerBlock s i * blockSize s + c) % blockSize s ≠ 0 ∧
      (headerBlock s i * blockSize s + c) % blockSize s ≠ 4 := by
    intro i c hc
    rw [Nat.mul_add_mod_self_right]
    omega
  cases f with
  | magic =>
      obtain ⟨h₁, h₂⟩ := hsmall (x := 16) (by decide) (by decide)
      show fieldAt s 0 16 = _
      rw [fieldAt, if_neg h₁, if_neg h₂, h0, if_neg (by omega), if_neg (by omega),
        if_neg (by omega), if_pos rfl]
  | segmentShift =>
      obtain ⟨h₁, h₂⟩ := hsmall (x := 20) (by decide) (by decide)
      show fieldAt s 0 20 = _
      rw [fieldAt, if_neg h₁, if_neg h₂, h0, if_neg (by omega), if_neg (by omega),
        if_neg (by omega), if_neg (by omega), if_pos rfl]
  | segmentCount =>
      obtain ⟨h₁, h₂⟩ := hsmall (x := 24) (by decide) (by decide)
      show fieldAt s 0 24 = _
      rw [fieldAt, if_neg h₁, if_neg h₂, h0, if_neg (by omega), if_neg (by omega),
        if_neg (by omega), if_neg (by omega), if_neg (by omega), if_pos rfl]
  | freeList k =>
      have hk : k < 8 := hf
      obtain ⟨h₁, h₂⟩ := hsmall (x := 40 + 4 * k) (by omega) (by omega)
      show fieldAt s 0 (40 + 4 * k) = _
      rw [fieldAt, if_neg h₁, if_neg h₂, h0, if_neg (by omega), if_neg (by omega),
        if_neg (by omega), if_neg (by omega), if_neg (by omega), if_neg (by omega),
        show (40 + 4 * k - 40) / 4 = k by omega]
  | freeBlocks i =>
      obtain ⟨h₁, h₂⟩ := hheader i hs.freeBlocks
      simp only [fieldAt, FpField.segment, FpField.offset, if_neg h₁, if_neg h₂, if_true]
  | freeFlink i =>
      obtain ⟨h₁, h₂⟩ := hheader i hs.freeFlink
      simp only [fieldAt, FpField.segment, FpField.offset, if_neg h₁, if_neg h₂, if_true]
      rw [if_neg (by omega)]
  | freeBlink i =>
      obtain ⟨h₁, h₂⟩ := hheader i hs.freeBlink
      simp only [fieldAt, FpField.segment, FpField.offset, if_neg h₁, if_neg h₂, if_true]
      rw [if_neg (by omega), if_neg (by omega)]
  | blockFlags i offset =>
      have hmod := (hf.2.cases hs).2.2
      show fieldAt s i offset = _
      rw [fieldAt, if_pos hmod]
  | blockSpan i offset =>
      have hmod := (hf.2.cases hs).2.2
      have hmod' : (offset + 4) % blockSize s = 4 := by
        rw [Nat.add_mod, hmod, Nat.zero_add, Nat.mod_mod, Nat.mod_eq_of_lt (by omega)]
      show fieldAt s i (offset + 4) = _
      rw [fieldAt, hmod', if_neg (by decide), if_pos rfl, Nat.add_sub_cancel]

theorem FpField.addr_inj {s : Nat} {f g : FpField} (hs : Roomy s) (hf : f.Ok s) (hg : g.Ok s)
    (h : f.addr s = g.addr s) : f = g := by
  rw [FpField.addr_eq hs hf, FpField.addr_eq hs hg] at h
  have hlf := FpField.offset_lt hs.sizes hf
  have hlg := FpField.offset_lt hs.sizes hg
  obtain ⟨hseg, hoff⟩ := segment_offset_inj (by omega) (by omega) h
  rw [← fieldAt_offset hs.sizes hf, ← fieldAt_offset hs.sizes hg, hseg, hoff]

/-! ## Bitmaps -/

theorem header_eq {s i : Nat} (hs : Roomy s) (hi : InFile s i) :
    phFppGetHeaderSegment s i =
      i * segmentSize s + (headerBlock s i * blockSize s + 16) := by
  rw [phFppGetHeaderSegment, segmentOffset_eq hs.sizes hi, fpBlockBody, Nat.add_assoc]

theorem segments_apart {size i j x y : Nat} (hij : i < j) (hx : x ≤ size) :
    i * size + x ≤ j * size + y := by
  have : (i + 1) * size ≤ j * size := Nat.mul_le_mul_right _ hij
  rw [Nat.succ_mul] at this
  omega

theorem FpField.addr_outside {s i : Nat} {f : FpField} (hs : Roomy s) (hf : f.Ok s)
    (hi : InFile s i) :
    f.addr s < phFppGetHeaderSegment s i ∨
      phFppGetHeaderSegment s i + 4 * fpBitmapSize ≤ f.addr s := by
  have hblock := hs.sizes.block
  have hseg := hs.sizes.segment
  have hH : headerBlock s i * blockSize s ≤ blockSize s := by
    simpa using Nat.mul_le_mul_right (blockSize s) (headerBlock_le (i := i) hs.sizes)
  rw [FpField.addr_eq hs hf, header_eq hs hi, fpBitmapSize]
  have hlt := FpField.offset_lt hs.sizes hf
  rcases Nat.lt_trichotomy f.segment i with h | h | h
  · have := segments_apart (y := headerBlock s i * blockSize s + 16) h
      (show f.offset s + 1 ≤ segmentSize s by omega)
    omega
  · subst h
    have h0 : headerBlock s 0 * blockSize s = blockSize s := by
      rw [headerBlock, if_pos rfl, hs.sizes.fileSpan, Nat.one_mul]
    cases f with
    | magic | segmentShift | segmentCount =>
        simp only [FpField.offset, FpField.segment]
        omega
    | freeList k =>
        have : k < 8 := hf
        simp only [FpField.offset, FpField.segment]
        omega
    | freeBlocks i | freeFlink i | freeBlink i =>
        simp only [FpField.offset, FpField.segment]
        omega
    | blockFlags i offset | blockSpan i offset =>
        have := (hf.2.cases hs.sizes).1
        simp only [FpField.offset, FpField.segment]
        omega
  · have := segments_apart (y := f.offset s) h
      (show headerBlock s i * blockSize s + 16 + 4 * 64 ≤ segmentSize s by omega)
    omega

theorem bitmaps_apart {s i k : Nat} (hs : Roomy s) (hi : InFile s i) (hk : InFile s k)
    (hik : i ≠ k) :
    phFppGetHeaderSegment s i + 4 * fpBitmapSize ≤ phFppGetHeaderSegment s k ∨
      phFppGetHeaderSegment s k + 4 * fpBitmapSize ≤ phFppGetHeaderSegment s i := by
  have hblock := hs.sizes.block
  have hseg := hs.sizes.segment
  have hH : ∀ i, headerBlock s i * blockSize s ≤ blockSize s := fun i => by
    simpa using Nat.mul_le_mul_right (blockSize s) (headerBlock_le (i := i) hs.sizes)
  have hHi := hH i
  have hHk := hH k
  rw [header_eq hs hi, header_eq hs hk, fpBitmapSize]
  rcases Nat.lt_or_gt_of_ne hik with h | h
  · have := segments_apart (y := headerBlock s k * blockSize s + 16) h
      (show headerBlock s i * blockSize s + 16 + 4 * 64 ≤ segmentSize s by omega)
    omega
  · have := segments_apart (y := headerBlock s i * blockSize s + 16) h
      (show headerBlock s k * blockSize s + 16 + 4 * 64 ≤ segmentSize s by omega)
    omega

/-! ## Reads after stores -/

namespace FilePool

variable {p : FilePool} {f g : FpField} {value i k start n j : Nat} {v : Bool}

@[simp] theorem set_segmentShift : (p.set f value).segmentShift = p.segmentShift := rfl

@[simp] theorem set_sectionSize : (p.set f value).sectionSize = p.sectionSize := rfl

@[simp] theorem writeBits_segmentShift :
    (p.writeBits i start n v).segmentShift = p.segmentShift := rfl

@[simp] theorem writeBits_sectionSize :
    (p.writeBits i start n v).sectionSize = p.sectionSize := rfl

theorem get_set_self : (p.set f value).get f = value := Function.update_self ..

theorem get_set_ne (hs : Roomy p.segmentShift) (hf : f.Ok p.segmentShift)
    (hg : g.Ok p.segmentShift) (hne : g ≠ f) : (p.set f value).get g = p.get g :=
  Function.update_of_ne (fun h => hne (FpField.addr_inj hs hg hf h)) ..

theorem get_writeBits (hs : Roomy p.segmentShift) (hf : f.Ok p.segmentShift)
    (hi : InFile p.segmentShift i) : (p.writeBits i start n v).get f = p.get f :=
  writeBits_of_outside (FpField.addr_outside hs hf hi)

theorem bit_set (hs : Roomy p.segmentShift) (hf : f.Ok p.segmentShift)
    (hi : InFile p.segmentShift i) (hj : j < fpBlockCount) :
    (p.set f value).bit i j = p.bit i j := by
  refine bitAt_congr (show j < 32 * fpBitmapSize from hj) ?_
  intro w hw
  refine Function.update_of_ne ?_ ..
  have := FpField.addr_outside hs hf hi
  rw [set_segmentShift]
  omega

theorem bit_writeBits_self (hj : j < fpBlockCount) :
    (p.writeBits i start n v).bit i j = writeRange (p.bit i) start n v j :=
  bitAt_writeBits (show j < 32 * fpBitmapSize from hj)

theorem bit_writeBits_ne (hs : Roomy p.segmentShift) (hi : InFile p.segmentShift i)
    (hk : InFile p.segmentShift k) (hik : i ≠ k) (hj : j < fpBlockCount) :
    (p.writeBits i start n v).bit k j = p.bit k j := by
  refine bitAt_congr (show j < 32 * fpBitmapSize from hj) ?_
  intro w hw
  refine writeBits_of_outside ?_
  have := bitmaps_apart hs hi hk hik
  rw [writeBits_segmentShift]
  omega

end FilePool

end SystemInformer.PhLib
