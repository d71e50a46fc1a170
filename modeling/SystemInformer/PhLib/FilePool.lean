import SystemInformer.Base.Nt
import SystemInformer.Base.Words
import SystemInformer.Lib.Bitmap

/-!
# `filepool.c`: a pool of blocks in a file

The file is the model's memory: one `ULONG` for every file offset a field of an
on-disk structure starts at. Two fields that the layout puts at one offset are
one cell, so nothing here assumes that the headers do not overlap. Offsets are
what the source computes, `ULONG` shifts included.

A segment is referenced by mapping a view of it. Which views are cached is not
modelled: a reference succeeds or fails as the environment says, except that a
range past the end of the section is never mapped. Writing through the null
pointer of a failed reference ends the run (`none`), and so does a walk along a
free list that outlasts its fuel.
-/

namespace SystemInformer.PhLib

open Bitmap

/-! ## On-disk structures -/

def fpBitmapSize : Nat := 64
def fpBlockCount : Nat := fpBitmapSize * 32
def fpBlockCountShift : Nat := 11
def fpFreeListCount : Nat := 8
def fpMagic : Nat := 0x6C6F5046

/-- `FIELD_OFFSET(PH_FP_BLOCK_HEADER, Body)`. -/
def fpBlockBody : Nat := 16
def sizeofFpSegmentHeader : Nat := 320
def sizeofFpFileHeader : Nat := 56

/-! ## The pool -/

/-- `RtlFindClearBits` on the bitmap of a segment, with what is documented of it:
a run it finds is clear and inside the bitmap, it finds one whenever there is
one, and for a run of no bits it answers a hint in the bitmap rounded down to a
byte. -/
structure BitmapFinder where
  find : (Nat → Bool) → Nat → Nat → Option Nat
  clear : ∀ {bits n hint start}, find bits n hint = some start →
    ClearRun bits fpBlockCount start n
  complete : ∀ {bits n hint}, find bits n hint = none →
    ∀ start, ¬ ClearRun bits fpBlockCount start n
  zero : ∀ {bits hint}, hint < fpBlockCount → find bits 0 hint = some (hint / 8 * 8)

/-- The calls a pool makes: whether each attempt to map a view or to extend the
section succeeds, by the number of attempts made before it. -/
structure PoolEnv where
  finder : BitmapFinder
  mapView : Nat → Bool
  extendSection : Nat → Bool

/-- `PH_FILE_POOL` with the file behind it. -/
structure FilePool where
  segmentShift : Nat
  memory : Nat → Nat
  sectionSize : Nat
  calls : Nat

section Layout

variable (segmentShift : Nat)

def segmentSize : Nat := 2 ^ segmentShift

def blockShift : Nat := segmentShift - fpBlockCountShift

def blockSize : Nat := 2 ^ blockShift segmentShift

def fileHeaderBlockSpan : Nat :=
  (sizeofFpFileHeader + blockSize segmentShift - 1) / blockSize segmentShift

def segmentHeaderBlockSpan : Nat :=
  (sizeofFpSegmentHeader + blockSize segmentShift - 1) / blockSize segmentShift

/-- The file offset that segment `i` is mapped from: `SegmentIndex << SegmentShift`. -/
def segmentOffset (i : Nat) : Nat := i * segmentSize segmentShift % ulongRange

/-- The block that holds the segment header: the first one, or in the first
segment the one after the file header. -/
def headerBlock (i : Nat) : Nat := if i = 0 then fileHeaderBlockSpan segmentShift else 0

/-- `PhFppGetHeaderSegment`, as a file offset. -/
def phFppGetHeaderSegment (i : Nat) : Nat :=
  segmentOffset segmentShift i + headerBlock segmentShift i * blockSize segmentShift +
    fpBlockBody

end Layout

/-- The fields of the on-disk structures. A block header is named by its segment
and its offset there. -/
inductive FpField where
  | magic
  | segmentShift
  | segmentCount
  | freeList (k : Nat)
  | freeBlocks (i : Nat)
  | freeFlink (i : Nat)
  | freeBlink (i : Nat)
  | blockFlags (i offset : Nat)
  | blockSpan (i offset : Nat)
  deriving DecidableEq

def FpField.addr (segmentShift : Nat) : FpField → Nat
  | .magic => fpBlockBody
  | .segmentShift => fpBlockBody + 4
  | .segmentCount => fpBlockBody + 8
  | .freeList k => fpBlockBody + 24 + 4 * k
  | .freeBlocks i => phFppGetHeaderSegment segmentShift i + 256
  | .freeFlink i => phFppGetHeaderSegment segmentShift i + 260
  | .freeBlink i => phFppGetHeaderSegment segmentShift i + 264
  | .blockFlags i offset => segmentOffset segmentShift i + offset
  | .blockSpan i offset => segmentOffset segmentShift i + offset + 4

namespace FilePool

def get (p : FilePool) (f : FpField) : Nat := p.memory (f.addr p.segmentShift)

def set (p : FilePool) (f : FpField) (value : Nat) : FilePool :=
  { p with memory := Function.update p.memory (f.addr p.segmentShift) value }

/-- The allocation bitmap of segment `i`. -/
def bit (p : FilePool) (i : Nat) : Nat → Bool :=
  bitAt p.memory (phFppGetHeaderSegment p.segmentShift i)

/-- `RtlSetBits` and `RtlClearBits` on the bitmap of segment `i`. -/
def writeBits (p : FilePool) (i start n : Nat) (value : Bool) : FilePool :=
  { p with
    memory := Bitmap.writeBits p.memory (phFppGetHeaderSegment p.segmentShift i) fpBitmapSize
      start n value }

end FilePool

/-! ## Segments -/

/-- `PhFppReferenceSegment`: whether the segment could be mapped. -/
def phFppReferenceSegment (env : PoolEnv) (p : FilePool) (i : Nat) : FilePool × Bool :=
  if i ≠ 0 ∧ i ≥ p.get .segmentCount then
    (p, false)
  else
    ({ p with calls := p.calls + 1 },
      env.mapView p.calls &&
        decide (segmentOffset p.segmentShift i + segmentSize p.segmentShift ≤ p.sectionSize))

/-- `PhFppExtendRange`: a section never shrinks. -/
def phFppExtendRange (env : PoolEnv) (p : FilePool) (newSize : Nat) : FilePool × Bool :=
  if env.extendSection p.calls then
    ({ p with calls := p.calls + 1, sectionSize := max p.sectionSize newSize }, true)
  else
    ({ p with calls := p.calls + 1 }, false)

def phFppInitializeSegment (p : FilePool) (i additionalBlocksUsed : Nat) : FilePool :=
  let used := segmentHeaderBlockSpan p.segmentShift + additionalBlocksUsed
  let p := p.set (.blockSpan i (headerBlock p.segmentShift i * blockSize p.segmentShift))
    (segmentHeaderBlockSpan p.segmentShift)
  let p := p.writeBits i 0 used true
  let p := p.set (.freeBlocks i) (fpBlockCount - used)
  let p := p.set (.freeFlink i) ulongMax
  p.set (.freeBlink i) ulongMax

/-! ## Free lists -/

def phFppComputeFreeListIndex (segmentShift numberOfBlocks : Nat) : Nat :=
  if numberOfBlocks ≥ fpBlockCount / 64 then
    if numberOfBlocks ≥ fpBlockCount / 2 then
      if numberOfBlocks ≥ fpBlockCount - segmentHeaderBlockSpan segmentShift then 0
      else 1
    else
      if numberOfBlocks ≥ fpBlockCount / 16 then 2
      else 3
  else
    if numberOfBlocks ≥ 4 then
      if numberOfBlocks ≥ fpBlockCount / 256 then 4
      else 5
    else
      if numberOfBlocks ≥ 1 then 6
      else 7

def phFppInsertFreeList (env : PoolEnv) (p : FilePool) (k i : Nat) : FilePool × Bool :=
  let old := p.get (.freeList k)
  let commit (p : FilePool) : FilePool :=
    let p := p.set (.freeBlink i) ulongMax
    let p := p.set (.freeFlink i) old
    p.set (.freeList k) i
  if old = ulongMax then
    (commit p, true)
  else
    let r := phFppReferenceSegment env p old
    if r.2 = false then
      (r.1, false)
    else
      ((commit r.1).set (.freeBlink old) i, true)

/-- A reference that is only made for a link that is not null. -/
def referenceLink (env : PoolEnv) (p : FilePool) (link : Nat) : FilePool × Bool :=
  if link = ulongMax then (p, true) else phFppReferenceSegment env p link

def phFppRemoveFreeList (env : PoolEnv) (p : FilePool) (k i : Nat) : FilePool × Bool :=
  let flink := p.get (.freeFlink i)
  let blink := p.get (.freeBlink i)
  let r := referenceLink env p flink
  if r.2 = false then
    (r.1, false)
  else
    let r := referenceLink env r.1 blink
    if r.2 = false then
      (r.1, false)
    else
      let p := r.1
      let p := if flink = ulongMax then p else p.set (.freeBlink flink) blink
      (if blink = ulongMax then p.set (.freeList k) flink else p.set (.freeFlink blink) flink,
        true)

/-- The segment goes from one free list to another when its index changed; the
results of the two steps are not looked at. -/
def moveFreeList (env : PoolEnv) (p : FilePool) (old new i : Nat) : FilePool :=
  if new = old then p
  else (phFppInsertFreeList env (phFppRemoveFreeList env p old i).1 new i).1

/-- `PhFppAllocateSegment`: the index of the new segment, if the section could be
extended. -/
def phFppAllocateSegment (env : PoolEnv) (p : FilePool) : Option (FilePool × Option Nat) :=
  let newSize := (p.get .segmentCount + 1) % ulongRange * segmentSize p.segmentShift % ulongRange
  let r := phFppExtendRange env p newSize
  if r.2 = false then
    some (r.1, none)
  else
    let p := r.1
    let i := p.get .segmentCount
    let p := p.set .segmentCount ((i + 1) % ulongRange)
    let r := phFppReferenceSegment env p i
    if r.2 = false then
      none
    else
      let p := phFppInitializeSegment r.1 i 0
      some ((phFppInsertFreeList env p 0 i).1, some i)

/-! ## Blocks -/

/-- The index of the first block found, marked as used. -/
def phFppAllocateBlocks (env : PoolEnv) (p : FilePool) (i numberOfBlocks : Nat) :
    FilePool × Option Nat :=
  let hintIndex :=
    if i ≠ 0 then segmentHeaderBlockSpan p.segmentShift
    else segmentHeaderBlockSpan p.segmentShift + fileHeaderBlockSpan p.segmentShift
  match env.finder.find (p.bit i) numberOfBlocks hintIndex with
  | none => (p, none)
  | some foundIndex =>
      let p := p.writeBits i foundIndex numberOfBlocks true
      let p := p.set (.freeBlocks i)
        ((p.get (.freeBlocks i) + ulongRange - numberOfBlocks) % ulongRange)
      let offset := foundIndex * blockSize p.segmentShift
      let p := p.set (.blockFlags i offset) 0
      (p.set (.blockSpan i offset) numberOfBlocks, some foundIndex)

/-- `PhFppFreeBlocks` for the block header at `offset` in segment `i`. -/
def phFppFreeBlocks (p : FilePool) (i offset : Nat) : FilePool :=
  let startIndex := offset / blockSize p.segmentShift
  let blockSpan := p.get (.blockSpan i offset)
  let p := p.writeBits i startIndex blockSpan false
  p.set (.freeBlocks i) ((p.get (.freeBlocks i) + blockSpan) % ulongRange)

/-! ## Allocating -/

/-- A pointer into the file: the segment it is in and the offset there. -/
structure FpPointer where
  segment : Nat
  offset : Nat
  deriving DecidableEq

inductive ScanResult where
  | exhausted
  | notMapped
  | allocated (segment foundIndex : Nat)

/-- The walk along one free list, from segment `i` on. -/
def scanList (env : PoolEnv) (numberOfBlocks : Nat) :
    Nat → FilePool → Nat → Option (FilePool × ScanResult)
  | 0, _, _ => none
  | fuel + 1, p, i =>
      if i = ulongMax then
        some (p, .exhausted)
      else
        let r := phFppReferenceSegment env p i
        if r.2 = false then
          some (r.1, .notMapped)
        else
          let next := r.1.get (.freeFlink i)
          match phFppAllocateBlocks env r.1 i numberOfBlocks with
          | (p, some foundIndex) => some (p, .allocated i foundIndex)
          | (p, none) => scanList env numberOfBlocks fuel p next

/-- The walk along `n` free lists from list `k` on; with the list it ended in. -/
def scanLists (env : PoolEnv) (numberOfBlocks fuel : Nat) :
    Nat → FilePool → Nat → Option (FilePool × Nat × ScanResult)
  | 0, p, k => some (p, k, .exhausted)
  | n + 1, p, k =>
      match scanList env numberOfBlocks fuel p (p.get (.freeList k)) with
      | none => none
      | some (p, .exhausted) => scanLists env numberOfBlocks fuel n p (k + 1)
      | some (p, r) => some (p, k, r)

def numberOfBlocksFor (segmentShift : Nat) (size : UInt32) : Nat :=
  (fpBlockBody + size.toNat + blockSize segmentShift - 1) % ulongRange / blockSize segmentShift

/-- The end of an allocation: the segment moves to the free list for its new
number of free blocks. -/
def blockAllocated (env : PoolEnv) (p : FilePool) (k i foundIndex : Nat) :
    FilePool × Option FpPointer :=
  let new := phFppComputeFreeListIndex p.segmentShift (p.get (.freeBlocks i))
  (moveFreeList env p k new i,
    some ⟨i, foundIndex * blockSize p.segmentShift + fpBlockBody⟩)

/-- `PhAllocateFilePool`: the pointer to the body of the block, if there is one. -/
def phAllocateFilePool (env : PoolEnv) (fuel : Nat) (p : FilePool) (size : UInt32) :
    Option (FilePool × Option FpPointer) :=
  let n := numberOfBlocksFor p.segmentShift size
  if n > fpBlockCount - segmentHeaderBlockSpan p.segmentShift then
    some (p, none)
  else
    let freeListLimit := phFppComputeFreeListIndex p.segmentShift n
    match scanLists env n fuel (freeListLimit + 1) p 0 with
    | none => none
    | some (p, _, .notMapped) => some (p, none)
    | some (p, k, .allocated i foundIndex) => some (blockAllocated env p k i foundIndex)
    | some (p, _, .exhausted) =>
        match phFppAllocateSegment env p with
        | none => none
        | some (p, none) => some (p, none)
        | some (p, some i) =>
            match phFppAllocateBlocks env p i n with
            | (p, none) => some (p, none)
            | (p, some foundIndex) => some (blockAllocated env p 0 i foundIndex)

/-! ## Freeing -/

def phpFreeFilePool (env : PoolEnv) (p : FilePool) (block : FpPointer) : FilePool :=
  let i := block.segment
  let old := phFppComputeFreeListIndex p.segmentShift (p.get (.freeBlocks i))
  let p := phFppFreeBlocks p i (block.offset - fpBlockBody)
  let new := phFppComputeFreeListIndex p.segmentShift (p.get (.freeBlocks i))
  moveFreeList env p old new i

/-- `PhFreeFilePool` for a pointer whose view is there. -/
def phFreeFilePool (env : PoolEnv) (p : FilePool) (block : FpPointer) : FilePool :=
  phpFreeFilePool env p block

def phFppEncodeRva (segmentShift : Nat) (block : FpPointer) : Nat :=
  (segmentOffset segmentShift block.segment + block.offset) % ulongRange

def phFppDecodeRva (p : FilePool) (rva : Nat) : Option FpPointer :=
  let segmentIndex := rva / segmentSize p.segmentShift
  if segmentIndex ≥ p.get .segmentCount then none
  else some ⟨segmentIndex, rva % segmentSize p.segmentShift⟩

def phFreeFilePoolByRva (env : PoolEnv) (p : FilePool) (rva : Nat) : FilePool × Bool :=
  match phFppDecodeRva p rva with
  | none => (p, false)
  | some block =>
      let r := phFppReferenceSegment env p block.segment
      if r.2 = false then (r.1, false)
      else (phpFreeFilePool env r.1 block, true)

/-! ## Creating -/

/-- `PhpValidateFilePoolParameters` on the segment shift. -/
def phpValidateFilePoolParameters (segmentShift : Nat) : Nat :=
  if segmentShift < 16 then 16
  else if segmentShift > 28 then 28
  else segmentShift

/-- The segment shift of `PhpSetDefaultFilePoolParameters`. -/
def phpDefaultSegmentShift : Nat := 18

def initializeHeader (p : FilePool) : FilePool :=
  let p := p.set .magic fpMagic
  let p := p.set .segmentShift p.segmentShift
  let p := p.set .segmentCount 1
  (List.range fpFreeListCount).foldl (fun p k => p.set (.freeList k) ulongMax) p

/-- The first segment of a new file, with the block of the file header in it. -/
def initializeFirstSegment (p : FilePool) : FilePool :=
  let p := p.set (.blockSpan 0 0) (fileHeaderBlockSpan p.segmentShift)
  let p := phFppInitializeSegment p 0 (fileHeaderBlockSpan p.segmentShift)
  p.set (.freeList 1) 0

/-- `PhCreateFilePool` on an empty file, for a requested segment shift. -/
def phCreateFilePool (env : PoolEnv) (segmentShift : Nat) : Option FilePool :=
  -- The first page is mapped, and the file header set up in it.
  if env.mapView 0 = false then
    none
  else
    let p := initializeHeader
      ⟨phpValidateFilePoolParameters segmentShift, fun _ => 0, pageSize, 1⟩
    -- The section is extended to the whole first segment, and that mapped.
    let r := phFppExtendRange env p (segmentSize p.segmentShift)
    if r.2 = false then
      none
    else
      let r := phFppReferenceSegment env r.1 0
      if r.2 = false then
        none
      else
        some (initializeFirstSegment r.1)

end SystemInformer.PhLib
