import SystemInformer.Proofs.FilePoolLists

/-!
# Relative addresses in a file pool

A relative address is the index of a segment above the bits of an offset in it, in 32 bits. The
index is never compared with what fits: what keeps the addresses apart is that the section is
asked for the new size in the same 32 bits. The size that wraps is smaller than the section, the
section stays as it is, and the segment after its end cannot be mapped. So the pool never has a
segment whose offset wraps, for every segment shift there is, and its last segment can be one
short of 4 GiB only.

Segments of less than 256 kB let the headers run into each other, and the frame of the earlier
proofs does not hold for them. All that is needed here is that the count of the segments is never
hit: it is at an offset that is in no block header, and in no bitmap of a segment below 4 GiB.
-/

namespace SystemInformer.PhLib

open Bitmap

/-! ## The count of the segments -/

def ShiftOk (s : Nat) : Prop := 16 ≤ s ∧ s ≤ 28

theorem ShiftOk.validate (segmentShift : Nat) :
    ShiftOk (phpValidateFilePoolParameters segmentShift) := by
  unfold ShiftOk phpValidateFilePoolParameters
  split
  · omega
  · split <;> omega

/-- What is used of the sizes that follow from the shift. -/
structure Extents (s : Nat) : Prop where
  block : 32 ∣ blockSize s
  blockPos : 32 ≤ blockSize s
  segment : segmentSize s = fpBlockCount * blockSize s
  small : pageSize ≤ segmentSize s ∧ segmentSize s < ulongRange
  fileHeader : 64 ≤ headerBlock s 0 * blockSize s
  hint : segmentHeaderBlockSpan s + fileHeaderBlockSpan s < fpBlockCount

theorem ShiftOk.extents {s : Nat} (h : ShiftOk s) : Extents s := by
  have hall : ∀ s ∈ List.range' 16 13, 32 ∣ blockSize s ∧ 32 ≤ blockSize s ∧
      segmentSize s = fpBlockCount * blockSize s ∧
      (pageSize ≤ segmentSize s ∧ segmentSize s < ulongRange) ∧
      64 ≤ headerBlock s 0 * blockSize s ∧
      segmentHeaderBlockSpan s + fileHeaderBlockSpan s < fpBlockCount := by
    decide +kernel
  obtain ⟨h₁, h₂⟩ := h
  obtain ⟨hblock, hpos, hsegment, hsmall, hheader, hhint⟩ :=
    hall s (List.mem_range'_1.mpr ⟨h₁, by omega⟩)
  exact ⟨hblock, hpos, hsegment, hsmall, hheader, hhint⟩

/-- The segments of the pool stay as they are. -/
structure SameExtent (p p' : FilePool) : Prop where
  shift : p'.segmentShift = p.segmentShift
  size : p'.sectionSize = p.sectionSize
  count : p'.get .segmentCount = p.get .segmentCount

namespace SameExtent

variable {p p' p'' : FilePool}

theorem calls {c : Nat} : SameExtent p { p with calls := c } := ⟨rfl, rfl, rfl⟩

theorem refl : SameExtent p p := calls

theorem trans (h : SameExtent p p') (h' : SameExtent p' p'') : SameExtent p p'' :=
  ⟨h'.shift.trans h.shift, h'.size.trans h.size, h'.count.trans h.count⟩

theorem set {f : FpField} {value : Nat} (h : f.addr p.segmentShift ≠ 24) :
    SameExtent p (p.set f value) :=
  ⟨rfl, rfl, Function.update_of_ne h.symm ..⟩

theorem freeList {k value : Nat} : SameExtent p (p.set (.freeList k) value) := by
  refine set ?_
  show fpBlockBody + 24 + 4 * k ≠ 24
  rw [fpBlockBody]
  omega

theorem freeBlocks {i value : Nat} : SameExtent p (p.set (.freeBlocks i) value) :=
  set (Nat.ne_of_gt (Nat.lt_of_lt_of_le (by decide : 24 < 256) (Nat.le_add_left ..)))

theorem freeFlink {i value : Nat} : SameExtent p (p.set (.freeFlink i) value) :=
  set (Nat.ne_of_gt (Nat.lt_of_lt_of_le (by decide : 24 < 260) (Nat.le_add_left ..)))

theorem freeBlink {i value : Nat} : SameExtent p (p.set (.freeBlink i) value) :=
  set (Nat.ne_of_gt (Nat.lt_of_lt_of_le (by decide : 24 < 264) (Nat.le_add_left ..)))

end SameExtent

theorem blockAddr_mod {s i b : Nat} (hs : Extents s) :
    (segmentOffset s i + b * blockSize s) % 32 = 0 := by
  have hsegment : 32 ∣ segmentSize s := hs.segment ▸ hs.block.mul_left _
  have hoffset : 32 ∣ segmentOffset s i :=
    (Nat.dvd_mod_iff (by decide)).mpr (hsegment.mul_left i)
  exact Nat.mod_eq_zero_of_dvd (Nat.dvd_add hoffset (hs.block.mul_left b))

theorem SameExtent.blockFlags {p : FilePool} {i b value : Nat} (hs : Extents p.segmentShift) :
    SameExtent p (p.set (.blockFlags i (b * blockSize p.segmentShift)) value) := by
  have hmod := blockAddr_mod (i := i) (b := b) hs
  refine .set ?_
  show segmentOffset p.segmentShift i + b * blockSize p.segmentShift ≠ 24
  omega

theorem SameExtent.blockSpan {p : FilePool} {i b value : Nat} (hs : Extents p.segmentShift) :
    SameExtent p (p.set (.blockSpan i (b * blockSize p.segmentShift)) value) := by
  have hmod := blockAddr_mod (i := i) (b := b) hs
  refine .set ?_
  show segmentOffset p.segmentShift i + b * blockSize p.segmentShift + 4 ≠ 24
  omega

/-- A pool below 4 GiB, whose section is as long as its segments. -/
structure ExtentOk (p : FilePool) : Prop where
  shift : ShiftOk p.segmentShift
  pos : 0 < p.get .segmentCount
  size : p.sectionSize = p.get .segmentCount * segmentSize p.segmentShift
  bound : p.sectionSize < ulongRange

namespace ExtentOk

variable {p p' : FilePool} {i : Nat}

theorem same (h : ExtentOk p) (hk : SameExtent p p') : ExtentOk p' := by
  refine ⟨by rw [hk.shift]; exact h.shift, by rw [hk.count]; exact h.pos, ?_, ?_⟩
  · rw [hk.size, hk.count, hk.shift]
    exact h.size
  · rw [hk.size]
    exact h.bound

theorem offset_eq (h : ExtentOk p) (hi : i ≤ p.get .segmentCount) :
    segmentOffset p.segmentShift i = i * segmentSize p.segmentShift := by
  have hle := Nat.mul_le_mul_right (segmentSize p.segmentShift) hi
  have hsize := h.size
  have hbound := h.bound
  exact Nat.mod_eq_of_lt (by omega)

theorem writeBits {start n : Nat} {v : Bool} (h : ExtentOk p) (hi : i < p.get .segmentCount) :
    SameExtent p (p.writeBits i start n v) := by
  have hs := h.shift.extents
  refine ⟨rfl, rfl, writeBits_of_outside (Or.inl ?_)⟩
  show fpBlockBody + 8 < phFppGetHeaderSegment p.segmentShift i
  rw [phFppGetHeaderSegment, h.offset_eq (Nat.le_of_lt hi)]
  have hbody : fpBlockBody = 16 := rfl
  rcases Nat.eq_zero_or_pos i with rfl | hpos
  · have := hs.fileHeader
    omega
  · have hmul := Nat.mul_le_mul_right (segmentSize p.segmentShift) hpos
    have hpage : pageSize = 4096 := rfl
    have := hs.small.1
    omega

end ExtentOk

/-! ## The operations -/

section

variable {env : PoolEnv} {p p' : FilePool} {k i n : Nat}

theorem phFppReferenceSegment_extent : SameExtent p (phFppReferenceSegment env p i).1 := by
  unfold phFppReferenceSegment
  split
  · exact .refl
  · exact .calls

theorem referenceLink_extent : SameExtent p (referenceLink env p i).1 := by
  unfold referenceLink
  split
  · exact .refl
  · exact phFppReferenceSegment_extent

theorem phFppInsertFreeList_extent : SameExtent p (phFppInsertFreeList env p k i).1 := by
  have hcommit : ∀ {q : FilePool} (old : Nat), SameExtent p q → SameExtent p
      (((q.set (.freeBlink i) SystemInformer.ulongMax).set (.freeFlink i) old).set (.freeList k) i) :=
    fun old hq => ((hq.trans .freeBlink).trans .freeFlink).trans .freeList
  unfold phFppInsertFreeList
  simp only
  split
  · exact hcommit _ .refl
  · split
    · exact phFppReferenceSegment_extent
    · exact (hcommit _ phFppReferenceSegment_extent).trans .freeBlink

theorem phFppRemoveFreeList_extent : SameExtent p (phFppRemoveFreeList env p k i).1 := by
  have hflink : SameExtent p (referenceLink env p (p.get (.freeFlink i))).1 :=
    referenceLink_extent
  have hblink : SameExtent p (referenceLink env (referenceLink env p (p.get (.freeFlink i))).1
      (p.get (.freeBlink i))).1 := hflink.trans referenceLink_extent
  have hlinked : SameExtent p (if p.get (.freeFlink i) = SystemInformer.ulongMax then
      (referenceLink env (referenceLink env p (p.get (.freeFlink i))).1 (p.get (.freeBlink i))).1
      else (referenceLink env (referenceLink env p (p.get (.freeFlink i))).1
        (p.get (.freeBlink i))).1.set (.freeBlink (p.get (.freeFlink i)))
          (p.get (.freeBlink i))) := by
    split
    · exact hblink
    · exact hblink.trans .freeBlink
  unfold phFppRemoveFreeList
  simp only
  split
  · exact hflink
  · split
    · exact hblink
    · split
      · exact hlinked.trans .freeList
      · exact hlinked.trans .freeFlink

theorem moveFreeList_extent {old new : Nat} : SameExtent p (moveFreeList env p old new i) := by
  unfold moveFreeList
  split
  · exact .refl
  · exact phFppRemoveFreeList_extent.trans phFppInsertFreeList_extent

theorem phFppInitializeSegment_extent {used : Nat} (h : ExtentOk p)
    (hi : i < p.get .segmentCount) : SameExtent p (phFppInitializeSegment p i used) := by
  have hs := h.shift.extents
  have h₁ : SameExtent p (p.set (.blockSpan i (headerBlock p.segmentShift i *
      blockSize p.segmentShift)) (segmentHeaderBlockSpan p.segmentShift)) := .blockSpan hs
  have h₂ := h₁.trans (show SameExtent _ (FilePool.writeBits _ i 0
    (segmentHeaderBlockSpan p.segmentShift + used) true) from
    (h.same h₁).writeBits (by rw [h₁.count]; exact hi))
  exact ((h₂.trans .freeBlocks).trans .freeFlink).trans .freeBlink

theorem found_lt {start hint : Nat} {bits : Nat → Bool} (hhint : hint < fpBlockCount)
    (h : env.finder.find bits n hint = some start) : start < fpBlockCount := by
  rcases Nat.eq_zero_or_pos n with rfl | hn
  · rw [env.finder.zero hhint] at h
    injection h with h
    omega
  · have hle := (env.finder.clear h).1
    omega

theorem phFppAllocateBlocks_extent {r : Option Nat} (h : ExtentOk p)
    (hi : i < p.get .segmentCount) (hb : phFppAllocateBlocks env p i n = (p', r)) :
    SameExtent p p' ∧ ∀ start, r = some start → start < fpBlockCount := by
  have hs := h.shift.extents
  have hhint : (if i ≠ 0 then segmentHeaderBlockSpan p.segmentShift
      else segmentHeaderBlockSpan p.segmentShift + fileHeaderBlockSpan p.segmentShift) <
      fpBlockCount := by
    have := hs.hint
    split <;> omega
  unfold phFppAllocateBlocks at hb
  simp only at hb
  split at hb
  · obtain ⟨rfl, rfl⟩ := Prod.mk.inj hb
    exact ⟨.refl, by simp⟩
  · next found hfind =>
      obtain ⟨rfl, rfl⟩ := Prod.mk.inj hb
      refine ⟨?_, fun start hstart => ?_⟩
      · have h₁ : SameExtent p (p.writeBits i found n true) := h.writeBits hi
        exact ((h₁.trans .freeBlocks).trans (.blockFlags hs)).trans (.blockSpan hs)
      · injection hstart with hstart
        rw [← hstart]
        exact found_lt hhint hfind

/-- What a walk along free lists leaves of the pool, and where the blocks it took are. -/
def ScannedExtent (p p' : FilePool) (r : ScanResult) : Prop :=
  SameExtent p p' ∧ ∀ i start, r = .allocated i start →
    i < p.get .segmentCount ∧ start < fpBlockCount

theorem ScannedExtent.trans {p'' : FilePool} {r : ScanResult} (hk : SameExtent p p')
    (h : ScannedExtent p' p'' r) : ScannedExtent p p'' r := by
  refine ⟨hk.trans h.1, fun i start hr => ?_⟩
  rw [← hk.count]
  exact h.2 i start hr

theorem scanList_extent {fuel : Nat} {r : ScanResult} (h : ExtentOk p)
    (hscan : scanList env n fuel p i = some (p', r)) : ScannedExtent p p' r := by
  induction fuel generalizing p i with
  | zero => cases hscan
  | succ fuel ih =>
      unfold scanList at hscan
      split at hscan
      · obtain ⟨rfl, rfl⟩ := Prod.mk.inj (Option.some.inj hscan)
        exact ⟨.refl, by simp⟩
      · obtain ⟨⟨c, hcalls⟩, hlt⟩ := phFppReferenceSegment_spec env (i := i) h.pos
        simp only [hcalls] at hscan
        split at hscan
        · obtain ⟨rfl, rfl⟩ := Prod.mk.inj (Option.some.inj hscan)
          exact ⟨.calls, by simp⟩
        · next href =>
            have hi := hlt (Bool.eq_true_of_not_eq_false href)
            have hk : SameExtent p { p with calls := c } := .calls
            split at hscan
            · next hblocks =>
                obtain ⟨rfl, rfl⟩ := Prod.mk.inj (Option.some.inj hscan)
                obtain ⟨hk', hstart⟩ := phFppAllocateBlocks_extent (h.same hk) hi hblocks
                refine ⟨hk.trans hk', fun j start hr => ?_⟩
                obtain ⟨rfl, rfl⟩ := ScanResult.allocated.inj hr
                exact ⟨hi, hstart _ rfl⟩
            · next hblocks =>
                have hk' := hk.trans (phFppAllocateBlocks_extent (h.same hk) hi hblocks).1
                exact (ih (h.same hk') hscan).trans hk'

theorem scanLists_extent {fuel m k' : Nat} {r : ScanResult} (h : ExtentOk p)
    (hscan : scanLists env n fuel m p k = some (p', k', r)) : ScannedExtent p p' r := by
  induction m generalizing p k with
  | zero =>
      obtain ⟨rfl, hr⟩ := Prod.mk.inj (Option.some.inj hscan)
      obtain ⟨-, rfl⟩ := Prod.mk.inj hr
      exact ⟨.refl, by simp⟩
  | succ m ih =>
      unfold scanLists at hscan
      split at hscan
      · cases hscan
      · next hlist =>
          have hk := (scanList_extent h hlist).1
          exact (ih (h.same hk) hscan).trans hk
      · next hlist =>
          obtain ⟨rfl, hr⟩ := Prod.mk.inj (Option.some.inj hscan)
          obtain ⟨-, rfl⟩ := Prod.mk.inj hr
          exact scanList_extent h hlist

end

/-! ## A new segment -/

/-- The section size that the addition of a segment asks for. -/
def requestedSize (p : FilePool) : Nat :=
  (p.get .segmentCount + 1) % ulongRange * segmentSize p.segmentShift % ulongRange

/-- A further segment ends below 4 GiB. -/
def RvaRoom (p : FilePool) : Prop :=
  (p.get .segmentCount + 1) * segmentSize p.segmentShift < ulongRange

/-- The section after its extension by a segment, with the segment counted. -/
def extendedPool (p : FilePool) : FilePool :=
  let p' := { p with calls := p.calls + 1, sectionSize := max p.sectionSize (requestedSize p) }
  p'.set .segmentCount ((p.get .segmentCount + 1) % ulongRange)

namespace ExtentOk

variable {env : PoolEnv} {p p' q : FilePool} {i n : Nat} {live : List FpPointer}

theorem count_lt (h : ExtentOk p) : p.get .segmentCount + 1 < ulongRange := by
  have hpage := h.shift.extents.small.1
  have hpos : pageSize = 4096 := rfl
  have hmul : p.get .segmentCount * 4096 ≤
      p.get .segmentCount * segmentSize p.segmentShift := Nat.mul_le_mul_left _ (by omega)
  have hsize := h.size
  have hbound := h.bound
  have hrange : ulongRange = 4294967296 := rfl
  omega

theorem requestedSize_eq (h : ExtentOk p) : requestedSize p =
    (p.get .segmentCount + 1) * segmentSize p.segmentShift % ulongRange := by
  rw [requestedSize, Nat.mod_eq_of_lt h.count_lt]

theorem grows_iff (h : ExtentOk p) : p.sectionSize < requestedSize p ↔ RvaRoom p := by
  have hsize := h.size
  have hbound := h.bound
  have hsmall := h.shift.extents.small
  have hpage : pageSize = 4096 := rfl
  rw [requestedSize_eq h, RvaRoom, hsize, Nat.succ_mul]
  constructor
  · intro hgrows
    by_contra hwraps
    rw [Nat.mod_eq_sub_mod (by omega), Nat.mod_eq_of_lt (by omega)] at hgrows
    omega
  · intro hroom
    rw [Nat.mod_eq_of_lt hroom]
    omega

theorem extended (h : ExtentOk p)
    (href : (phFppReferenceSegment env (extendedPool p) (p.get .segmentCount)).2 = true) :
    ExtentOk (extendedPool p) ∧ (extendedPool p).get .segmentCount = p.get .segmentCount + 1 := by
  have hcount : (extendedPool p).get .segmentCount = p.get .segmentCount + 1 :=
    FilePool.get_set_self.trans (Nat.mod_eq_of_lt h.count_lt)
  have hmapped : segmentOffset p.segmentShift (p.get .segmentCount) +
      segmentSize p.segmentShift ≤ max p.sectionSize (requestedSize p) := by
    unfold phFppReferenceSegment at href
    split at href
    · cases href
    · exact of_decide_eq_true (Bool.and_eq_true_iff.mp href).2
  have hroom : RvaRoom p := by
    have hsmall := h.shift.extents.small.1
    have hpage : pageSize = 4096 := rfl
    rw [h.offset_eq (Nat.le_refl _), ← h.size] at hmapped
    rw [← h.grows_iff]
    omega
  have hrequested : requestedSize p =
      (p.get .segmentCount + 1) * segmentSize p.segmentShift := by
    rw [h.requestedSize_eq, Nat.mod_eq_of_lt hroom]
  have hmax : max p.sectionSize (requestedSize p) = requestedSize p :=
    max_eq_right (Nat.le_of_lt (h.grows_iff.mpr hroom))
  refine ⟨⟨h.shift, by omega, ?_, ?_⟩, hcount⟩
  · show max p.sectionSize (requestedSize p) = _ * segmentSize p.segmentShift
    rw [hmax, hcount, hrequested]
  · show max p.sectionSize (requestedSize p) < ulongRange
    rw [hmax, hrequested]
    exact hroom

theorem segmentAdded {r : Option Nat} (h : ExtentOk p)
    (hseg : phFppAllocateSegment env p = some (p', r)) :
    ExtentOk p' ∧ p.get .segmentCount ≤ p'.get .segmentCount ∧
      p'.segmentShift = p.segmentShift ∧ ∀ i, r = some i → i < p'.get .segmentCount := by
  have heq : phFppAllocateSegment env p =
      if (phFppExtendRange env p (requestedSize p)).2 = false then
        some ((phFppExtendRange env p (requestedSize p)).1, none)
      else
        let q := (phFppExtendRange env p (requestedSize p)).1
        let i := q.get .segmentCount
        let r := phFppReferenceSegment env (q.set .segmentCount ((i + 1) % ulongRange)) i
        if r.2 = false then none
        else some ((phFppInsertFreeList env (phFppInitializeSegment r.1 i 0) 0 i).1, some i) := rfl
  rw [heq] at hseg
  split at hseg
  · next hext =>
      obtain ⟨rfl, rfl⟩ := Prod.mk.inj (Option.some.inj hseg)
      have hk : SameExtent p (phFppExtendRange env p (requestedSize p)).1 := by
        unfold phFppExtendRange at *
        split at hext
        · cases hext
        · next hfails =>
            rw [if_neg hfails]
            exact .calls
      exact ⟨h.same hk, hk.count.ge, hk.shift, nofun⟩
  · next hext =>
      rw [phFppExtendRange_eq (Bool.eq_true_of_not_eq_false hext)] at hseg
      dsimp only at hseg
      split at hseg
      · cases hseg
      · next href =>
          obtain ⟨rfl, rfl⟩ := Prod.mk.inj (Option.some.inj hseg)
          obtain ⟨hq, hcount⟩ := h.extended (Bool.eq_true_of_not_eq_false href)
          have href' : SameExtent (extendedPool p)
              (phFppReferenceSegment env (extendedPool p) (p.get .segmentCount)).1 :=
            phFppReferenceSegment_extent
          have hinit := href'.trans (@phFppInitializeSegment_extent _ (p.get .segmentCount) 0
            (hq.same href') (by rw [href'.count, hcount]; exact Nat.lt_succ_self _))
          have hk := hinit.trans (show SameExtent _ (phFppInsertFreeList env _ 0
            (p.get .segmentCount)).1 from phFppInsertFreeList_extent)
          have hcount' := hk.count.trans hcount
          refine ⟨hq.same hk, (Nat.le_succ _).trans hcount'.ge, hk.shift, fun i hi => ?_⟩
          obtain rfl := Option.some.inj hi
          exact (Nat.lt_succ_self _).trans_le hcount'.ge

end ExtentOk

/-! ## Runs -/

/-- A pool that was created, and blocks allocated and freed in it; with the blocks that are
live. -/
inductive RvaRun (env : PoolEnv) (segmentShift : Nat) : FilePool → List FpPointer → Prop where
  | create {p} : phCreateFilePool env segmentShift = some p → RvaRun env segmentShift p []
  | allocate {p live fuel size p' r} : RvaRun env segmentShift p live →
      phAllocateFilePool env fuel p size = some (p', r) →
      RvaRun env segmentShift p' (r.toList ++ live)
  | free {p live b} : RvaRun env segmentShift p live → b ∈ live →
      RvaRun env segmentShift (phFreeFilePool env p b) (live.erase b)
  | freeByRva {p live b p' freed} : RvaRun env segmentShift p live → b ∈ live →
      phFreeFilePoolByRva env p (phFppEncodeRva p.segmentShift b) = (p', freed) →
      RvaRun env segmentShift p' (if freed then live.erase b else live)

def BlockPlaced (p : FilePool) (b : FpPointer) : Prop :=
  b.segment < p.get .segmentCount ∧ b.offset < segmentSize p.segmentShift

structure RvaOk (p : FilePool) (live : List FpPointer) : Prop where
  extent : ExtentOk p
  blocks : ∀ b ∈ live, BlockPlaced p b

namespace RvaOk

variable {env : PoolEnv} {p p' q : FilePool} {k i n : Nat} {live live' : List FpPointer}

theorem same (h : RvaOk p live) (hk : SameExtent p p') : RvaOk p' live := by
  refine ⟨h.extent.same hk, fun b hb => ?_⟩
  rw [BlockPlaced, hk.count, hk.shift]
  exact h.blocks b hb

theorem sub (h : RvaOk p live) (hsub : live' ⊆ live) : RvaOk p live' :=
  ⟨h.extent, fun b hb => h.blocks b (hsub hb)⟩

theorem blockAllocated {start : Nat} (h : RvaOk p live) (hi : i < p.get .segmentCount)
    (hstart : start < fpBlockCount) :
    RvaOk (blockAllocated env p k i start).1 ((blockAllocated env p k i start).2.toList ++ live) := by
  have hs := h.extent.shift.extents
  have hk : SameExtent p (PhLib.blockAllocated env p k i start).1 := moveFreeList_extent
  obtain ⟨hextent, hblocks⟩ := h.same hk
  refine ⟨hextent, fun b hb => ?_⟩
  rcases List.mem_cons.mp hb with rfl | hb
  · refine ⟨by rw [hk.count]; exact hi, ?_⟩
    have hle : (start + 1) * blockSize p.segmentShift ≤ fpBlockCount * blockSize p.segmentShift :=
      Nat.mul_le_mul_right _ hstart
    have hpos := hs.blockPos
    have hbody : fpBlockBody = 16 := rfl
    rw [Nat.succ_mul] at hle
    rw [hk.shift, hs.segment]
    show start * blockSize p.segmentShift + fpBlockBody < _
    omega
  · exact hblocks b hb

theorem allocate {fuel : Nat} {r : Option FpPointer} (h : RvaOk p live)
    (ha : Allocation env fuel p n p' r) : RvaOk p' (r.toList ++ live) := by
  -- The pool after a segment was added.
  have hgrown : ∀ {q k q' r'}, scanLists env n fuel
      (phFppComputeFreeListIndex p.segmentShift n + 1) p 0 = some (q, k, .exhausted) →
      phFppAllocateSegment env q = some (q', r') →
      RvaOk q' live ∧ ∀ i, r' = some i → i < q'.get .segmentCount := by
    intro q k q' r' hscan hseg
    have hq := h.same (scanLists_extent h.extent hscan).1
    obtain ⟨hextent, hcount, hshift, hi⟩ := hq.extent.segmentAdded hseg
    refine ⟨⟨hextent, fun b hb => ?_⟩, hi⟩
    obtain ⟨hsegment, hoffset⟩ := hq.blocks b hb
    exact ⟨hsegment.trans_le hcount, by rw [hshift]; exact hoffset⟩
  cases ha with
  | tooLarge => exact h
  | notMapped hscan => exact h.same (scanLists_extent h.extent hscan).1
  | found hscan =>
      obtain ⟨hk, hplace⟩ := scanLists_extent h.extent hscan
      obtain ⟨hi, hstart⟩ := hplace _ _ rfl
      exact (h.same hk).blockAllocated (by rw [hk.count]; exact hi) hstart
  | notExtended hscan hseg => exact (hgrown hscan hseg).1
  | noRoom hscan hseg hblocks =>
      obtain ⟨hq, hi⟩ := hgrown hscan hseg
      exact hq.same (phFppAllocateBlocks_extent hq.extent (hi _ rfl) hblocks).1
  | fresh hscan hseg hblocks =>
      obtain ⟨hq, hi⟩ := hgrown hscan hseg
      obtain ⟨hk, hstart⟩ := phFppAllocateBlocks_extent hq.extent (hi _ rfl) hblocks
      exact (hq.same hk).blockAllocated (by rw [hk.count]; exact hi _ rfl) (hstart _ rfl)

theorem freed {b : FpPointer} (h : RvaOk p live) (hb : b ∈ live) :
    RvaOk (phpFreeFilePool env p b) (live.erase b) := by
  have hi := (h.blocks b hb).1
  have hk : SameExtent p (phFppFreeBlocks p b.segment (b.offset - fpBlockBody)) :=
    (h.extent.writeBits hi).trans .freeBlocks
  exact (h.same (hk.trans moveFreeList_extent)).sub List.erase_subset

theorem decode {b : FpPointer} (h : RvaOk p live) (hb : b ∈ live) :
    phFppDecodeRva p (phFppEncodeRva p.segmentShift b) = some b := by
  obtain ⟨hsegment, hoffset⟩ := h.blocks b hb
  exact phFppDecodeRva_encode hsegment hoffset
    (by rw [← h.extent.size]; exact Nat.le_of_lt h.extent.bound)

theorem freedByRva {b : FpPointer} {freed : Bool} (h : RvaOk p live) (hb : b ∈ live)
    (hf : phFreeFilePoolByRva env p (phFppEncodeRva p.segmentShift b) = (p', freed)) :
    RvaOk p' (if freed then live.erase b else live) := by
  have href : SameExtent p (phFppReferenceSegment env p b.segment).1 :=
    phFppReferenceSegment_extent
  unfold phFreeFilePoolByRva at hf
  rw [h.decode hb] at hf
  simp only at hf
  split at hf
  · obtain ⟨rfl, rfl⟩ := Prod.mk.inj hf
    exact h.same href
  · obtain ⟨rfl, rfl⟩ := Prod.mk.inj hf
    exact (h.same href).freed hb

end RvaOk

/-! ## A new file -/

theorem initLists_extent {l : List Nat} {p : FilePool} :
    SameExtent p (l.foldl (fun p k => p.set (.freeList k) SystemInformer.ulongMax) p) := by
  induction l generalizing p with
  | nil => exact .refl
  | cons k l ih => exact SameExtent.freeList.trans ih

theorem RvaOk.created {env : PoolEnv} {segmentShift : Nat} {p : FilePool}
    (h : phCreateFilePool env segmentShift = some p) : RvaOk p [] := by
  have hshift := ShiftOk.validate segmentShift
  have hsmall := hshift.extents.small
  let q : FilePool := ((FilePool.set ⟨phpValidateFilePoolParameters segmentShift, fun _ => 0,
    pageSize, 1⟩ .magic fpMagic).set .segmentShift
      (phpValidateFilePoolParameters segmentShift)).set .segmentCount 1
  have hheader : SameExtent q (initializeHeader
      ⟨phpValidateFilePoolParameters segmentShift, fun _ => 0, pageSize, 1⟩) :=
    initLists_extent
  have hcount : q.get .segmentCount = 1 := FilePool.get_set_self
  unfold phCreateFilePool at h
  generalize initializeHeader _ = q' at *
  simp only at h
  split at h
  · cases h
  · split at h
    · cases h
    · next hext =>
        rw [phFppExtendRange_eq (Bool.eq_true_of_not_eq_false hext)] at h
        split at h
        · cases h
        · obtain rfl := Option.some.inj h
          let q₁ : FilePool := { q' with
            calls := q'.calls + 1
            sectionSize := max q'.sectionSize (segmentSize q'.segmentShift) }
          have hmax : max q'.sectionSize (segmentSize q'.segmentShift) =
              segmentSize q'.segmentShift := by
            rw [hheader.size, hheader.shift]
            exact max_eq_right hsmall.1
          have hcount₁ : q₁.get .segmentCount = 1 := hheader.count.trans hcount
          have hq₁ : ExtentOk q₁ := by
            refine ⟨?_, by omega, ?_, ?_⟩
            · show ShiftOk q'.segmentShift
              rw [hheader.shift]
              exact hshift
            · rw [hcount₁, Nat.one_mul]
              exact hmax
            · show max q'.sectionSize (segmentSize q'.segmentShift) < ulongRange
              rw [hmax, hheader.shift]
              exact hsmall.2
          have href : SameExtent q₁ (phFppReferenceSegment env q₁ 0).1 :=
            phFppReferenceSegment_extent
          have hs : Extents (phFppReferenceSegment env q₁ 0).1.segmentShift :=
            (hq₁.same href).shift.extents
          have hspan := href.trans (@SameExtent.blockSpan _ 0 0
            (fileHeaderBlockSpan (phFppReferenceSegment env q₁ 0).1.segmentShift) hs)
          rw [Nat.zero_mul] at hspan
          have hinit := hspan.trans (@phFppInitializeSegment_extent _ _
            (fileHeaderBlockSpan (phFppReferenceSegment env q₁ 0).1.segmentShift)
            (hq₁.same hspan) (hq₁.same hspan).pos)
          exact ⟨hq₁.same (hinit.trans .freeList), nofun⟩

theorem RvaRun.ok {env : PoolEnv} {segmentShift : Nat} {p : FilePool} {live : List FpPointer}
    (h : RvaRun env segmentShift p live) : RvaOk p live := by
  induction h with
  | create hcreate => exact RvaOk.created hcreate
  | allocate _ halloc ih => exact ih.allocate (phAllocateFilePool_cases halloc)
  | free _ hb ih => exact ih.freed hb
  | freeByRva _ hb hf ih => exact ih.freedByRva hb hf

/-- The size for which a segment of 256 MB has just the blocks. -/
def wholeSegment : UInt32 := 268304368

theorem wholeSegment_blocks : numberOfBlocksFor 28 wholeSegment = 2047 := by decide

/-- A pool in which no segment has that many blocks left. -/
structure Filled (p : FilePool) (live : List FpPointer) : Prop where
  shift : p.segmentShift = 28
  sorted : PoolSorted p live
  second : ∀ i, i < p.get .segmentCount → p.bit i 1 = true

theorem Filled.noRun {p : FilePool} {live : List FpPointer} {i : Nat} (h : Filled p live)
    (hi : i < p.get .segmentCount) (start : Nat) : ¬ ClearRun (p.bit i) fpBlockCount start 2047 := by
  rintro ⟨hle, hclear⟩
  have hcount : fpBlockCount = 2048 := rfl
  have hfalse := hclear 1 (by omega) (by omega)
  rw [h.second i hi] at hfalse
  cases hfalse

theorem calmEnv_extends {p p' : FilePool} :
    phFppAllocateSegment calmEnv p ≠ some (p', none) := by
  intro h
  have hext : (phFppExtendRange calmEnv p (requestedSize p)).2 = true := rfl
  unfold phFppAllocateSegment at h
  simp only at h
  split at h
  · next hfails =>
      rw [requestedSize] at hext
      rw [hext] at hfails
      cases hfails
  · split at h
    · cases h
    · cases h

structure SegmentAdded (p p' : FilePool) (i : Nat) : Prop where
  fileOk : FileOk p'
  shift : p'.segmentShift = 28
  index : i = p.get .segmentCount
  count : p'.get .segmentCount = p.get .segmentCount + 1
  run : ClearRun (p'.bit i) fpBlockCount 1 2047
  second : ∀ j, j < p.get .segmentCount → p'.bit j 1 = true

theorem Filled.segmentAdded {p p' : FilePool} {live : List FpPointer} {i : Nat}
    (h : Filled p live) (hseg : phFppAllocateSegment calmEnv p = some (p', some i)) :
    SegmentAdded p p' i := by
  have hp := h.sorted.safe.fileOk
  rcases phFppAllocateSegment_cases calmEnv hp with hcase | ⟨d, hcase⟩ | ⟨e, he, hcase⟩
  · rw [hcase] at hseg
    cases hseg
  · rw [hcase] at hseg
    cases hseg
  · rw [hcase] at hseg
    obtain ⟨rfl, hindex⟩ := Prod.mk.inj (Option.some.inj hseg)
    obtain rfl := Option.some.inj hindex
    have hlt : p.get .segmentCount < e.get .segmentCount := by
      rw [he.count]
      exact Nat.lt_succ_self _
    have hinit := phFppInitializeSegment_spec 0 he.fileOk hlt
    have hq := hinit.keeps.fileOk he.fileOk
    have hk := phFppInsertFreeList_keeps calmEnv hq (k := 0) (i := p.get .segmentCount)
      (by decide) (by rw [hinit.keeps.count]; exact hlt)
    have hshift : e.segmentShift = 28 := he.shift.trans h.shift
    have hin : InFile p.segmentShift (p.get .segmentCount) := he.shift ▸ he.fileOk.inFile hlt
    -- The free lists leave the bits alone.
    have hbit : ∀ {i j}, InFile p.segmentShift i → j < fpBlockCount →
        (phFppInsertFreeList calmEnv (phFppInitializeSegment e (p.get .segmentCount) 0) 0
          (p.get .segmentCount)).1.bit i j =
        (phFppInitializeSegment e (p.get .segmentCount) 0).bit i j :=
      fun hi hj => hk.bit (by rw [hinit.keeps.shift, he.shift]; exact hi) id hj
    refine ⟨hk.fileOk hq, (hk.shift.trans hinit.keeps.shift).trans hshift, rfl,
      (hk.count.trans hinit.keeps.count).trans he.count, ⟨by decide, fun j hj hj' => ?_⟩,
      fun j hj => ?_⟩
    · have hblocks : fpBlockCount = 2048 := rfl
      have hspan : segmentHeaderBlockSpan 28 = 1 := by decide
      have hblank := h.sorted.accounted.bit_blank (j := j) hp.roomy hin (Nat.le_refl _)
      rw [hbit hin (by omega), hinit.bit (by omega),
        writeRange_outside (by rw [hshift, hspan]; omega), he.bit hin (by omega), hblank]
    · have hin' := hp.inFile hj
      rw [hbit hin' (by decide), hinit.keeps.bit (by rw [he.shift]; exact hin') (Nat.ne_of_lt hj)
        (by decide), he.bit hin' (by decide), h.second j hj]

theorem Filled.calls {p : FilePool} {live : List FpPointer} {c : Nat} (h : Filled p live) :
    Filled { p with calls := c } live :=
  ⟨h.shift, h.sorted.calls, h.second⟩

theorem Filled.grows {p : FilePool} {live : List FpPointer} (h : Filled p live)
    (hroom : RvaRoom p) : ∃ p' r, phAllocateFilePool calmEnv (p.get .segmentCount + 1) p
      wholeSegment = some (p', r) ∧ Filled p' (r.toList ++ live) ∧
      p'.get .segmentCount = p.get .segmentCount + 1 := by
  have hp := h.sorted.safe.fileOk
  have hused := h.sorted.safe.headers
  obtain ⟨⟨p', r⟩, halloc⟩ := @PoolSorted.returns calmEnv _ _ _ wholeSegment (fun _ => rfl)
    h.sorted (Nat.lt_succ_self _) hroom
  refine ⟨p', r, halloc, ?_⟩
  have ha := phAllocateFilePool_cases halloc
  rw [h.shift, wholeSegment_blocks] at ha
  have hsorted := h.sorted.allocate (fun _ => rfl) ha
  have hlimit := phFppComputeFreeListIndex_lt (s := p.segmentShift) (n := 2047)
  have hgrown : ∀ {q k q' i}, scanLists calmEnv 2047 (p.get .segmentCount + 1)
      (phFppComputeFreeListIndex p.segmentShift 2047 + 1) p 0 = some (q, k, .exhausted) →
      phFppAllocateSegment calmEnv q = some (q', some i) →
      HeaderUsed q' i ∧ SegmentAdded p q' i := by
    intro q k q' i hscan hseg
    obtain ⟨hsafe, hi⟩ := h.sorted.safe.newSegment hscan hseg
    obtain ⟨⟨c, rfl⟩, -⟩ := scanLists_spec hp hused hscan
    obtain ⟨hq, hshift, hindex, hcount, hrun, hsecond⟩ := (h.calls (c := c)).segmentAdded hseg
    exact ⟨hsafe.headers _ hi, hq, hshift, hindex, hcount, hrun, hsecond⟩
  generalize hn : 2047 = n at ha
  cases ha with
  | tooLarge hlarge =>
      subst hn
      rw [h.shift] at hlarge
      exact absurd hlarge (by decide)
  | notMapped hscan =>
      obtain ⟨lists, ht, -⟩ := h.sorted.filed
      exact (scanLists_walked (fun _ => rfl) hp hused ht
        (by rw [← hn]; omega) hscan).elim
  | found hscan =>
      subst hn
      obtain ⟨⟨hi, c, htaken⟩, -⟩ := scanLists_spec hp hused hscan
      exact absurd htaken.run (h.noRun hi _)
  | notExtended hscan hseg => exact absurd hseg calmEnv_extends
  | noRoom hscan hseg hblocks =>
      subst hn
      obtain ⟨hheader, hq, -, rfl, hcount, hrun, -⟩ := hgrown hscan hseg
      rcases phFppAllocateBlocks_spec calmEnv (n := 2047) hq (by omega) hheader with
        ⟨-, hnone⟩ | ⟨q, start, hsome, -⟩
      · exact absurd hrun (hnone 1)
      · rw [hsome] at hblocks
        cases hblocks
  | fresh hscan hseg hblocks =>
      subst hn
      obtain ⟨hheader, hq, hshift, rfl, hcount, -, hbits⟩ := hgrown hscan hseg
      rcases phFppAllocateBlocks_spec calmEnv (n := 2047) hq (by omega) hheader with
        ⟨hnone, -⟩ | ⟨q, start, hsome, htaken⟩
      · rw [hnone] at hblocks
        cases hblocks
      · rw [hsome] at hblocks
        obtain ⟨rfl, hindex⟩ := Prod.mk.inj hblocks
        obtain rfl := Option.some.inj hindex
        have hk := htaken.keeps
        have hmove : KeepsBlocks q
            (blockAllocated calmEnv q 0 (p.get .segmentCount) start).1 :=
          moveFreeList_keeps calmEnv (hk.fileOk hq) (by decide) phFppComputeFreeListIndex_lt
            (by rw [hk.count]; omega)
        have hcount' := (hmove.count.trans hk.count).trans hcount
        refine ⟨⟨(hmove.shift.trans hk.shift).trans hshift, hsorted, fun i hi => ?_⟩, hcount'⟩
        rw [hcount'] at hi
        have hin := hq.inFile (by omega : i < _)
        rw [hmove.bit (by rw [hk.shift]; exact hin) id (by decide)]
        by_cases hnew : i = p.get .segmentCount
        · subst hnew
          rw [htaken.bit (by decide)]
          have hrun := htaken.run.1
          have hblocks : fpBlockCount = 2048 := rfl
          exact writeRange_inside ⟨by omega, by omega⟩
        · exact (hk.bit hin hnew (by decide)).trans (hbits i (by omega))

end SystemInformer.PhLib
